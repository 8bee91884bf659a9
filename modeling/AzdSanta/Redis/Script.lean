import AzdSanta.Redis.Lua

/-! Scripts over a keyspace and the commands that write it. -/
namespace Redis

/-- A script sees one frozen clock. Writes made before an error stay. -/
def Script (K : Type) (α : Type) := Store K → Except Error α × Store K

namespace Script
variable {K : Type} {α β : Type}

def run (m : Script K α) (s : Store K) : Except Error α × Store K := m s

instance : Monad (Script K) where
  pure a := fun s => (.ok a, s)
  bind m f := fun s =>
    match m s with
    | (.ok a, t) => f a t
    | (.error e, t) => (.error e, t)

def fail (e : Error) : Script K α := fun s => (.error e, s)

/-- A command, or a whole prefix of a script, that only reads. -/
def query (q : Store K → Except Error α) : Script K α := fun s => (q s, s)

def modify (f : Store K → Store K) : Script K Unit := fun s => (.ok (), f s)

@[simp] theorem run_pure (a : α) (s : Store K) : (pure a : Script K α).run s = (.ok a, s) := rfl

@[simp] theorem run_fail (e : Error) (s : Store K) : (fail e : Script K α).run s = (.error e, s) := rfl

@[simp] theorem run_query (q : Store K → Except Error α) (s : Store K) :
    (query q).run s = (q s, s) := rfl

theorem run_bind (m : Script K α) (f : α → Script K β) (s : Store K) :
    (m >>= f).run s = match m.run s with
      | (.ok a, t) => (f a).run t
      | (.error e, t) => (.error e, t) := rfl

theorem run_bind_ok {m : Script K α} {f : α → Script K β} {s t : Store K} {a : α}
    (h : m.run s = (.ok a, t)) : (m >>= f).run s = (f a).run t := by
  rw [run_bind, h]

@[simp] theorem run_query_bind (q : Store K → Except Error α) (f : α → Script K β) (s : Store K) :
    (query q >>= f).run s = match q s with
      | .ok a => (f a).run s
      | .error e => (.error e, s) := by
  rw [run_bind, run_query]
  cases q s <;> rfl

@[simp] theorem run_modify_bind (g : Store K → Store K) (f : Unit → Script K β) (s : Store K) :
    (modify g >>= f).run s = (f ()).run (g s) := rfl

theorem run_ite {c : Prop} [Decidable c] (m n : Script K α) (s : Store K) :
    (if c then m else n).run s = if c then m.run s else n.run s := by
  split <;> rfl

/-- An evaluation that ends in an error has written nothing. -/
def FailsClosed (m : Script K α) (s : Store K) : Prop :=
  ∀ e t, m.run s = (.error e, t) → t = s

theorem failsClosed_of_ok {m : Script K α} {s t : Store K} {a : α} (h : m.run s = (.ok a, t)) :
    FailsClosed m s := by
  intro e t' he
  rw [h] at he
  cases he

theorem failsClosed_query_bind {q : Store K → Except Error α} {f : α → Script K β} {s : Store K}
    (h : ∀ a, q s = .ok a → FailsClosed (f a) s) : FailsClosed (query q >>= f) s := by
  intro e t he
  rw [run_query_bind] at he
  rcases hq : q s with e' | a <;> rw [hq] at he
  · exact (Prod.mk.inj he).2.symm
  · exact h a hq e t he

theorem failsClosed_ite {c : Prop} [Decidable c] {m n : Script K α} {s : Store K}
    (hm : c → FailsClosed m s) (hn : ¬ c → FailsClosed n s) : FailsClosed (if c then m else n) s := by
  split
  · next h => exact hm h
  · next h => exact hn h

/-- A command in front keeps what the rest of a reading script keeps. -/
theorem run_query_bind_snd {q : Store K → Except Error α} {f : α → Script K β} {s : Store K}
    (h : ∀ a, ((f a).run s).2 = s) : ((query q >>= f).run s).2 = s := by
  rw [run_query_bind]
  cases q s with
  | error e => rfl
  | ok a => exact h a

variable [DecidableEq K]

/-- `SET k v`. -/
def set (k : K) (v : Bytes) : Script K Unit :=
  modify fun s => s.write k (some ⟨.str v, none⟩)

/-- `SET k v EX seconds`. -/
def setEx (k : K) (v : Bytes) (seconds : ℕ) : Script K Unit := do
  if seconds = 0 then fail .invalidExpire
  else modify fun s => s.write k (some ⟨.str v, some (s.now + seconds * 1000)⟩)

/-- `SET k v NX EX seconds`; the result says whether the key was set. -/
def setNxEx (k : K) (v : Bytes) (seconds : ℕ) : Script K Bool := do
  if seconds = 0 then fail .invalidExpire
  else if ← query fun s => .ok (s.exist k) then pure false
  else do
    setEx k v seconds
    pure true

/-- `INCR`: the value must spell a signed 64-bit integer; the expiry is kept. -/
def incr (k : K) : Script K ℤ := fun s =>
  match s.find k with
  | none => (.ok 1, s.write k (some ⟨.str (Lua.integerText 1), none⟩))
  | some ⟨.str v, expireAt⟩ =>
    match Lua.integer? v with
    | none => (.error .notInteger, s)
    | some n =>
      if n = 2 ^ 63 - 1 then (.error .overflow, s)
      else (.ok (n + 1), s.write k (some ⟨.str (Lua.integerText (n + 1)), expireAt⟩))
  | some _ => (.error .wrongType, s)

def hset (k : K) (f v : Bytes) : Script K Unit := fun s =>
  match s.hgetall k with
  | .error e => (.error e, s)
  | .ok h => (.ok (), s.write k (some ⟨.hash (h.insert f v), (s.find k).bind (·.expireAt)⟩))

/-- `HDEL`; deleting the last field deletes the key. -/
def hdel (k : K) (f : Bytes) : Script K Unit := fun s =>
  match s.hgetall k with
  | .error e => (.error e, s)
  | .ok h =>
    if (h.erase f).keys = [] then (.ok (), s.write k none)
    else (.ok (), s.write k (some ⟨.hash (h.erase f), (s.find k).bind (·.expireAt)⟩))

theorem hset_of_absent {s : Store K} {k : K} (f v : Bytes) (h : s.find k = none) :
    (hset k f v).run s = (.ok (), s.write k (some ⟨.hash (AList.insert f v ∅), none⟩)) := by
  simp [run, hset, Store.hgetall, h]

theorem hset_of_hash {s : Store K} {k : K} {fields : Fields} {expireAt : Option ℕ} (f v : Bytes)
    (h : s.find k = some ⟨.hash fields, expireAt⟩) :
    (hset k f v).run s = (.ok (), s.write k (some ⟨.hash (fields.insert f v), expireAt⟩)) := by
  simp [run, hset, Store.hgetall, h]

theorem hdel_of_hash {s : Store K} {k : K} {fields : Fields} {expireAt : Option ℕ} {f : Bytes}
    (h : s.find k = some ⟨.hash fields, expireAt⟩) (hne : (fields.erase f).keys ≠ []) :
    (hdel k f).run s = (.ok (), s.write k (some ⟨.hash (fields.erase f), expireAt⟩)) := by
  simp only [run, hdel, Store.hgetall, h, if_neg hne, Option.bind_some]

/-- A hash, or a missing key, stays one that `HDEL` and `HSET` accept. -/
theorem hdel_of_hgetall {s : Store K} {k : K} {fields : Fields} (f : Bytes)
    (h : s.hgetall k = .ok fields) : ∃ t fields', (hdel k f).run s = (.ok (), t) ∧
      t.hgetall k = .ok fields' := by
  simp only [run, hdel, h]
  split
  · exact ⟨_, ∅, rfl, by simp [Store.hgetall, Store.find, Store.write]⟩
  · refine ⟨_, fields.erase f, rfl, ?_⟩
    rw [Store.hgetall, Store.write_find_self]
    rcases hf : s.find k with _ | ⟨v, expireAt⟩
    · rfl
    · exact (Store.find_live hf).2

theorem setNxEx_run (k : K) (v : Bytes) {seconds : ℕ} (hs : seconds ≠ 0) (s : Store K) :
    (setNxEx k v seconds).run s = if s.exist k then (.ok false, s)
      else (.ok true, s.write k (some ⟨.str v, some (s.now + seconds * 1000)⟩)) := by
  unfold setNxEx setEx
  simp only [if_neg hs, run_query_bind, run_ite, run_modify_bind, run_pure]

end Script

/-- One script evaluation in transit: sent once and evaluated at most once. -/
inductive Flight (α ρ : Type) where
  | unsent
  | sent (arguments : α)
  | replied (reply : Except Error ρ)
  | lost

end Redis

import Mathlib.Data.List.AList
import Mathlib.Data.Nat.Notation
import Mathlib.Logic.Function.Basic

/-! A Redis keyspace with millisecond expiry and the commands that scripts issue
against it. Keys are an arbitrary type. String values are byte strings, each byte
written as the character with that code. -/
namespace Redis

abbrev Bytes := List Char

abbrev Fields := AList fun _ : Bytes => Bytes

inductive Value where
  | str (s : Bytes)
  | hash (fields : Fields)
  /-- Lists, sets, sorted sets and streams: only the type name is observable here. -/
  | other (typeName : String)
  deriving DecidableEq

structure Entry where
  value : Value
  expireAt : Option ℕ
  deriving DecidableEq

/-- The clock is in milliseconds; an entry survives the millisecond it expires in. -/
def Entry.live (e : Entry) (now : ℕ) : Bool :=
  match e.expireAt with
  | none => true
  | some t => decide (now ≤ t)

theorem Entry.live_iff {e : Entry} {now : ℕ} :
    e.live now = true ↔ ∀ t, e.expireAt = some t → now ≤ t := by
  unfold Entry.live
  cases e.expireAt <;> simp

structure Store (K : Type) where
  now : ℕ
  data : K → Option Entry

inductive Error where
  /-- `redis.error_reply`. -/
  | reply (message : String)
  | wrongType
  | notInteger
  | overflow
  | invalidExpire
  deriving DecidableEq

namespace Store
variable {K : Type}

def empty (now : ℕ) : Store K := ⟨now, fun _ => none⟩

/-- Expired entries are logically absent, whether or not they were evicted. -/
def find (s : Store K) (k : K) : Option Entry := (s.data k).filter (fun e => e.live s.now)

def advance (s : Store K) (ms : ℕ) : Store K := { s with now := s.now + ms }

/-- `TIME`, first component. -/
def seconds (s : Store K) : ℕ := s.now / 1000

def exist (s : Store K) (k : K) : Bool := (s.find k).isSome

def typeOf (s : Store K) (k : K) : String :=
  match s.find k with
  | none => "none"
  | some ⟨.str _, _⟩ => "string"
  | some ⟨.hash _, _⟩ => "hash"
  | some ⟨.other t, _⟩ => t

/-- `TTL` rounds the remaining milliseconds to the nearest second. -/
def ttl (s : Store K) (k : K) : ℤ :=
  match s.find k with
  | none => -2
  | some ⟨_, none⟩ => -1
  | some ⟨_, some t⟩ => ((t - s.now + 500) / 1000 : ℕ)

def get (s : Store K) (k : K) : Except Error (Option Bytes) :=
  match s.find k with
  | none => .ok none
  | some ⟨.str v, _⟩ => .ok (some v)
  | some _ => .error .wrongType

/-- The fields of a hash; a missing key is an empty hash. -/
def hgetall (s : Store K) (k : K) : Except Error Fields :=
  match s.find k with
  | none => .ok ∅
  | some ⟨.hash h, _⟩ => .ok h
  | some _ => .error .wrongType

def hget (s : Store K) (k : K) (f : Bytes) : Except Error (Option Bytes) :=
  (s.hgetall k).map (fun h => h.lookup f)

def hkeys (s : Store K) (k : K) : Except Error (List Bytes) :=
  (s.hgetall k).map (fun h => h.keys)

def hlen (s : Store K) (k : K) : Except Error ℕ :=
  (s.hgetall k).map (fun h => h.keys.length)

variable [DecidableEq K]

def write (s : Store K) (k : K) (e : Option Entry) : Store K :=
  { s with data := Function.update s.data k e }

theorem write_data (s : Store K) (k k' : K) (e : Option Entry) :
    (s.write k e).data k' = if k' = k then e else s.data k' := by
  simp [write, Function.update_apply]

theorem write_find_self (s : Store K) (k : K) (e : Entry) (he : e.live s.now = true) :
    (s.write k (some e)).find k = some e := by
  simp [find, write, he]

@[simp] theorem write_find_ne (s : Store K) {k k' : K} (e : Option Entry) (h : k' ≠ k) :
    (s.write k e).find k' = s.find k' := by
  simp [find, write, h]

end Store

theorem Store.find_live {K : Type} {s : Store K} {k : K} {e : Entry} (h : s.find k = some e) :
    s.data k = some e ∧ e.live s.now = true := by
  simpa [Store.find, Option.filter_eq_some_iff] using h

theorem Store.get_eq_some {K : Type} {s : Store K} {k : K} {v : Bytes}
    (h : s.get k = .ok (some v)) : ∃ e, s.find k = some ⟨.str v, e⟩ := by
  unfold Store.get at h
  split at h
  · cases h
  · next w e hf =>
    cases h
    exact ⟨e, hf⟩
  · cases h

theorem Store.get_eq_none {K : Type} {s : Store K} {k : K} (h : s.get k = .ok none) :
    s.find k = none := by
  unfold Store.get at h
  split at h
  · assumption
  · cases h
  · cases h

theorem Store.write_find_eq {K : Type} [DecidableEq K] {s : Store K} {k : K} {e entry : Entry}
    (h : (s.write k (some e)).find k = some entry) : entry = e := by
  have hd := (Store.find_live h).1
  rw [Store.write_data, if_pos rfl] at hd
  exact (Option.some.inj hd).symm

/-- An entry seen after time passed was already there, unchanged. -/
theorem Store.find_of_advance {K : Type} {s : Store K} {k : K} {ms : ℕ} {e : Entry}
    (h : (s.advance ms).find k = some e) : s.find k = some e := by
  obtain ⟨hd, hl⟩ := Store.find_live h
  simp only [Store.find, Option.filter_eq_some_iff]
  refine ⟨hd, Entry.live_iff.mpr fun t ht => ?_⟩
  have hle := Entry.live_iff.mp hl t ht
  exact Nat.le_trans (Nat.le_add_right s.now ms) hle

/-- Persistent entries outlive every clock advance. -/
theorem Store.find_advance_of_persistent {K : Type} {s : Store K} {k : K} {v : Value}
    (ms : ℕ) (h : s.find k = some ⟨v, none⟩) : (s.advance ms).find k = some ⟨v, none⟩ := by
  obtain ⟨hd, _⟩ := Store.find_live h
  simp only [Store.find, Option.filter_eq_some_iff]
  exact ⟨hd, rfl⟩

end Redis

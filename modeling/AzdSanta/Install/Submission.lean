import AzdSanta.Install.Transport
import AzdSanta.Python.JsonExtend

/-! One job for the host: whatever calls are made and wherever they stop. -/
namespace Install
open Python Processes Checks

section Laws
variable (h : Host)

/-- What a call that is neither refused nor an observation has in common with the `ACTIVE` it met. -/
def Agrees (k : Call) (active : Option Bytes) : Prop :=
  ∀ raw old bundle, active = some raw → h.loads raw = some old → old.item "bundle_sha256" = some (.str bundle) →
    k.string "mode" ≠ some (text "observe") →
    k.string "bundle_sha256" = some bundle ∧
      (k.string "mode" = some (text "submit") → ∃ target wanted, old.item "target" = some target ∧
        k.item "target" = some wanted ∧ target.same h.room wanted = true)

/-- The call that makes an entry was not to be refused. -/
def Heard (e : Entry) (before : Log) : Prop :=
  ∃ active, ⟨e.process, e.call, .entered active⟩ ∈ before ∧ Agrees h e.call active

/-- The parts of an archive were found in its chunks. -/
def Uploaded (n : ℕ) (k : Call) (bundle archive : Text) (parts : List Text) (log : Log) : Prop :=
  ∀ i part, parts[i]? = some part →
    ∃ raw, ⟨n, k, .found (.chunk bundle archive i) raw⟩ ∈ log ∧ decodeUtf8 false raw = some part

/-- The file is in the directory of the bundle with these bytes: the call has written it, or found it. -/
def Placed (n : ℕ) (k : Call) (bundle name : Text) (body : Bytes) (log : Log) : Prop :=
  ⟨n, k, .stored (.installed bundle name) body⟩ ∈ log ∨ ⟨n, k, .found (.installed bundle name) body⟩ ∈ log

/-- What stands behind a job: the bundle of the chunks, its files in place, and `ACTIVE`. -/
structure Submitted (e : Entry) (bundle digest : Text) (before : Log) : Prop where
  packed : ∃ archive parts raw members, Uploaded e.process e.call bundle archive parts before ∧
    h.unpack parts.flatten archive bundle = some raw ∧ h.packed raw = some (.obj members) ∧
    ∀ name ∈ files, ∃ metadata body, (name, metadata) ∈ members ∧ h.body metadata = some body ∧
      Placed e.process e.call bundle name body before
  active : ∃ target context, e.call.string "bundle_sha256" = some bundle ∧ e.call.item "target" = some target ∧
    h.context bundle target = some context ∧
    digest = h.sha context ∧ content .active before = some context ∧
    ⟨e.process, e.call, .stored .active context⟩ ∈ before ∧ ⟨e.process, e.call, .synced .active context⟩ ∈ before ∧ ⟨e.process, e.call, .anchored .active⟩ ∈ before

/-- A file is made empty, once, and the call that made it puts more behind what is there. -/
def Stores (e : Entry) (f : File) (c : Bytes) (before : Log) : Prop :=
  (content f before = none ∧ c = []) ∨
    ∃ c', content f before = some c' ∧ c' <+: c ∧
      ∀ e' ∈ before, ∀ c', e'.event = .stored f c' → e'.process = e.process ∧ e'.call = e.call

/-- The start of the context of a call. -/
def StartsContext (k : Call) (c : Bytes) : Prop :=
  ∃ bundle target context, k.string "bundle_sha256" = some bundle ∧ k.item "target" = some target ∧
    h.context bundle target = some context ∧ c <+: context

/-- What can be entered behind `before`. -/
def Allowed (e : Entry) (before : Log) : Prop :=
  match e.event with
  | .entered active => active = content .active before ∧ ∀ e' ∈ before, e'.process ≠ e.process
  | .made folder => folder = .root ∧ content .active before = none ∨ Heard h e before
  | .stored f c => Heard h e before ∧ Stores e f c before ∧ hasFolder before .root = true ∧
      (f = .active → StartsContext h e.call c)
  | .synced f c | .found f c => content f before = some c
  | .anchored _ => True
  | .launched bundle digest => Heard h e before ∧ Submitted h e bundle digest before ∧
      ∀ e' ∈ before, ∀ bundle digest, e'.event ≠ .launched bundle digest
  | .answered => Heard h e before

end Laws

section Logs
variable {h : Host} {log : Log}

theorem content_cons_of_ne {e : Entry} {f : File} (he : ∀ c, e.event ≠ .stored f c) :
    content f (e :: log) = content f log := by
  rw [content]
  split
  · next f' c hevent =>
    rw [if_neg]
    rintro rfl
    exact he c hevent
  · rfl

theorem content_cons_stored {n : ℕ} {k : Call} {f : File} {c : Bytes} :
    content f (⟨n, k, .stored f c⟩ :: log) = some c := by simp [content]

theorem content_append_of_ne {new : Log} {f : File} (hnew : ∀ e ∈ new, ∀ c, e.event ≠ .stored f c) :
    content f (new ++ log) = content f log := by
  induction new with
  | nil => rfl
  | cons e new ih =>
    rw [List.cons_append, content_cons_of_ne (hnew e List.mem_cons_self)]
    exact ih fun e' he' => hnew e' (List.mem_cons_of_mem _ he')

theorem mem_of_content {f : File} {c : Bytes} (hc : content f log = some c) : ∃ e ∈ log, e.event = .stored f c := by
  induction log with
  | nil => cases hc
  | cons e log ih =>
    by_cases he : ∃ c, e.event = .stored f c
    · obtain ⟨c', hevent⟩ := he
      obtain rfl : c' = c := by simpa [content, hevent] using hc
      exact ⟨e, List.mem_cons_self, hevent⟩
    · rw [content_cons_of_ne fun c hevent => he ⟨c, hevent⟩] at hc
      obtain ⟨e', he', hevent⟩ := ih hc
      exact ⟨e', List.mem_cons_of_mem _ he', hevent⟩

theorem content_ne_none {f : File} {e : Entry} (he : e ∈ log) {c : Bytes} (hevent : e.event = .stored f c) :
    content f log ≠ none := by
  induction log with
  | nil => cases he
  | cons first log ih =>
    rcases List.mem_cons.mp he with rfl | he
    · simp [content, hevent]
    · by_cases hfirst : ∃ c, first.event = .stored f c
      · obtain ⟨c', hc'⟩ := hfirst
        simp [content, hc']
      · rw [content_cons_of_ne fun c hc => hfirst ⟨c, hc⟩]
        exact ih he

/-- One process makes and writes a file. -/
theorem owner_unique (hlog : Lawful (Allowed h) log) {f : File} {e e' : Entry} (he : e ∈ log) (he' : e' ∈ log)
    {c c' : Bytes} (hevent : e.event = .stored f c) (hevent' : e'.event = .stored f c') :
    e.process = e'.process ∧ e.call = e'.call := by
  induction log generalizing e e' c c' with
  | nil => cases he
  | cons first log ih =>
    -- Whoever stored the file before is the process of the first entry.
    have hfirst {c : Bytes} (hc : first.event = .stored f c) : ∀ e ∈ log, ∀ c', e.event = .stored f c' →
        e.process = first.process ∧ e.call = first.call := by
      intro e he c' hc'
      have hallowed := hlog.1
      simp only [Allowed, hc] at hallowed
      rcases hallowed.2.1 with ⟨hnone, -⟩ | ⟨_, _, _, hown⟩
      · exact absurd hnone (content_ne_none he hc')
      · exact hown e he c' hc'
    rcases List.mem_cons.mp he with rfl | hold
    · rcases List.mem_cons.mp he' with rfl | hold'
      · exact ⟨rfl, rfl⟩
      · exact (hfirst hevent e' hold' c' hevent').imp Eq.symm Eq.symm
    · rcases List.mem_cons.mp he' with rfl | hold'
      · exact hfirst hevent' e hold c hevent
      · exact ih hlog.2 hold hold' hevent hevent'

/-- A file is never cut. -/
theorem content_grows {new : Log} (hlog : Lawful (Allowed h) (new ++ log)) {f : File} {c : Bytes}
    (hc : content f log = some c) : ∃ c', content f (new ++ log) = some c' ∧ c <+: c' := by
  induction new with
  | nil => exact ⟨c, hc, List.prefix_rfl⟩
  | cons e new ih =>
    obtain ⟨c', hc', hinitial⟩ := ih hlog.2
    by_cases he : ∃ c, e.event = .stored f c
    · obtain ⟨c'', hevent⟩ := he
      have hallowed := hlog.1
      simp only [Allowed, hevent] at hallowed
      refine ⟨c'', by simp [content, hevent], ?_⟩
      rcases hallowed.2.1 with ⟨hnone, -⟩ | ⟨old, hold, hmore, -⟩
      · exact absurd (hc'.symm.trans hnone) (by simp)
      · obtain rfl := Option.some.inj (hc'.symm.trans hold)
        exact hinitial.trans hmore
    · exact ⟨c', by rw [List.cons_append, content_cons_of_ne fun c hevent => he ⟨c, hevent⟩, hc'], hinitial⟩

theorem entered_unique (hlog : Lawful (Allowed h) log) {n : ℕ} {k k' : Call} {active active' : Option Bytes}
    (he : ⟨n, k, .entered active⟩ ∈ log) (he' : ⟨n, k', .entered active'⟩ ∈ log) : active = active' := by
  induction log with
  | nil => cases he
  | cons first log ih =>
    have hfirst {k : Call} {active : Option Bytes} (hfirst : first = ⟨n, k, .entered active⟩) :
        ∀ e ∈ log, e.process ≠ n := by
      subst hfirst
      exact hlog.1.2
    rcases List.mem_cons.mp he with heq | hold
    · rcases List.mem_cons.mp he' with heq' | hold'
      · exact Event.entered.inj (Entry.mk.inj (heq.trans heq'.symm)).2.2
      · exact absurd rfl (hfirst heq.symm _ hold')
    · rcases List.mem_cons.mp he' with heq' | hold'
      · exact absurd rfl (hfirst heq'.symm _ hold)
      · exact ih hlog.2 hold hold'

end Logs

section Stages
variable {h : Host} {n : ℕ} {k : Call} {active : Option Bytes} {P : Log → Prop} {log log' : Log}

/-- A process only adds entries of its own. -/
def contract (h : Host) : Contract Log where
  inv := Lawful (Allowed h)
  own n log log' := ∃ new, log' = new ++ log ∧ ∀ e ∈ new, e.process = n

/-- Once it holds, it holds for good. -/
def Lasting (P : Log → Prop) : Prop := ∀ log new, P log → P (new ++ log)

theorem lasting_true : Lasting fun _ => True := fun _ _ _ => trivial

theorem lasting_mem (e : Entry) : Lasting fun log => e ∈ log := fun _ _ he => List.mem_append_right _ he

theorem Lasting.and {P' : Log → Prop} (hP : Lasting P) (hP' : Lasting P') : Lasting fun log => P log ∧ P' log :=
  fun log new hlog => ⟨hP log new hlog.1, hP' log new hlog.2⟩

theorem rely_append (hrely : Rely h.system (contract h) n log log') :
    ∃ new, log' = new ++ log ∧ ∀ e ∈ new, e.process ≠ n := by
  rcases hrely.other with ⟨e, -⟩ | ⟨m, hm, new, rfl, hnew⟩
  · exact e.elim
  · exact ⟨new, rfl, fun e he hn => hm ((hnew e he).symm.trans hn)⟩

/-- A call that has begun and not yet submitted the job. -/
structure Stage (n : ℕ) (k : Call) (active : Option Bytes) (P : Log → Prop) (log : Log) : Prop where
  entered : ⟨n, k, .entered active⟩ ∈ log
  idle : ∀ e ∈ log, e.process = n → ∀ bundle digest, e.event ≠ .launched bundle digest
  known : P log

theorem Stage.stable (hP : Lasting P) : Stable h.system (contract h) n (Stage n k active P) := by
  intro log log' hs hrely
  obtain ⟨new, rfl, hnew⟩ := rely_append hrely
  refine ⟨List.mem_append_right _ hs.entered, fun e he hn => ?_, hP log new hs.known⟩
  rcases List.mem_append.mp he with he | he
  · exact absurd hn (hnew e he)
  · exact hs.idle e he hn

/-- The process has made the file, which has this content. -/
structure Holds (n : ℕ) (k : Call) (f : File) (c : Bytes) (log : Log) : Prop where
  content : content f log = some c
  mine : ∃ c', ⟨n, k, .stored f c'⟩ ∈ log

theorem Holds.stable (f : File) (c : Bytes) : Stable h.system (contract h) n (Holds n k f c) := by
  intro log log' hs hrely
  obtain ⟨new, rfl, hnew⟩ := rely_append hrely
  obtain ⟨c', hmine⟩ := hs.mine
  refine ⟨?_, c', List.mem_append_right _ hmine⟩
  rw [content_append_of_ne, hs.content]
  intro e he c'' hevent
  exact hnew e he (owner_unique hrely.after (List.mem_append_left _ he) (List.mem_append_right _ hmine) hevent rfl).1

/-- A call into the system by a process of which more is known, `R`. -/
theorem keeps_op {α : Type} {op : Op} {value : Reply → Option α} {Q : α → Log → Prop} {R : Log → Prop}
    (hP : Lasting P) (hR : Stable h.system (contract h) n R) (hs : Stage n k active P log) (hr : R log)
    (hop : ∀ log r change, Stage n k active P log → R log → Lawful (Allowed h) log → effect k op r log = some change →
      (∀ e, change = some e → (∀ bundle digest, e ≠ .launched bundle digest) ∧ Allowed h ⟨n, k, e⟩ log) ∧
      (Stage n k active P (Entry.after n k log change) → ∀ v, value r = some v → Q v (Entry.after n k log change))) :
    Keeps h.system (contract h) n k (invoke op value) Q log := by
  refine keeps_invoke ((Stage.stable hP).and hR) ⟨hs, hr⟩ fun log ⟨hs, hr⟩ hinv r log' heffect => ?_
  obtain ⟨change, hchange, rfl⟩ := Option.map_eq_some_iff.mp heffect
  obtain ⟨hallowed, hQ⟩ := hop log r change hs hr hinv hchange
  cases change with
  | none => exact ⟨⟨[], rfl, by simp⟩, hinv, hQ hs⟩
  | some e =>
    obtain ⟨hne, hallowed⟩ := hallowed e rfl
    refine ⟨⟨[⟨n, k, e⟩], rfl, by simp⟩, ⟨hallowed, hinv⟩, hQ ⟨List.mem_cons_of_mem _ hs.entered, ?_, ?_⟩⟩
    · intro e' he' hn
      rcases List.mem_cons.mp he' with rfl | he'
      · exact hne
      · exact hs.idle e' he' hn
    · exact hP log [_] hs.known

attribute [local simp] effect

/-- A call that changes nothing. -/
def Quiet (op : Op) : Prop := ∀ k r log change, effect k op r log = some change → change = none

theorem keeps_quiet {α : Type} {op : Op} {value : Reply → Option α} (hquiet : Quiet op) (hP : Lasting P)
    (hs : Stage n k active P log) :
    Keeps h.system (contract h) n k (invoke op value) (fun _ => Stage n k active P) log := by
  refine keeps_op (R := fun _ => True) hP (stable_const True) hs trivial fun log r change _ _ _ hchange => ?_
  obtain rfl := hquiet k r log change hchange
  exact ⟨by simp, fun hs _ _ => hs⟩

theorem quiet_secure (what : Folder ⊕ File) : Quiet (.secure what) := by
  intro k r log change heffect
  cases r <;> simp_all [effect]

theorem quiet_exists (f : File) : Quiet (.exists f) := by
  intro k r log change heffect
  cases r <;> simp_all [effect]

theorem quiet_folderExists (folder : Folder) : Quiet (.folderExists folder) := by
  intro k r log change heffect
  cases r <;> simp_all [effect]

theorem quiet_present (path : String) : Quiet (.present path) := by
  intro k r log change heffect
  cases r <;> simp_all [effect]

theorem quiet_docker (what : String) : Quiet (.docker what) := by
  intro k r log change heffect
  cases r <;> simp_all [effect]

theorem quiet_status (bundle : Text) : Quiet (.status bundle) := by
  intro k r log change heffect
  cases r <;> simp_all [effect]

end Stages

section Calls
variable {h : Host} {n : ℕ} {k : Call} {active : Option Bytes} {P : Log → Prop} {log : Log}

theorem keeps_secure (hP : Lasting P) (hs : Stage n k active P log) (what : Folder ⊕ File) :
    Keeps h.system (contract h) n k (secure what) (fun _ => Stage n k active P) log :=
  keeps_bind ((keeps_quiet (quiet_secure what) hP hs).mono fun _ _ hs => keeps_need fun _ => hs)

theorem Stage.heard (hs : Stage n k active P log) (hagrees : Agrees h k active) (e : Event) :
    Heard h ⟨n, k, e⟩ log := ⟨active, hs.entered, hagrees⟩

theorem keeps_makeFolder (hP : Lasting P) (hs : Stage n k active P log) (hagrees : Agrees h k active) (folder : Folder) :
    Keeps h.system (contract h) n k (ask (.makeFolder folder)) (fun _ => Stage n k active P) log := by
  refine keeps_op (R := fun _ => True) hP (stable_const True) hs trivial fun log r change hs _ _ hchange => ?_
  refine ⟨?_, fun hs _ _ => hs⟩
  rintro e rfl
  cases r with
  | yes b =>
    cases b <;> simp [effect] at hchange
    obtain ⟨-, rfl⟩ := hchange
    exact ⟨by simp, .inr (hs.heard hagrees _)⟩
  | _ => simp [effect] at hchange

theorem keeps_haveFolder (hP : Lasting P) (hs : Stage n k active P log) (hagrees : Agrees h k active) (folder : Folder) :
    Keeps h.system (contract h) n k (haveFolder folder) (fun _ => Stage n k active P) log :=
  keeps_bind ((keeps_makeFolder hP hs hagrees folder).mono fun _ _ hs => keeps_secure hP hs _)

/-- What was read is entered. -/
theorem keeps_read (hP : Lasting P) (hs : Stage n k active P log) (f : File) :
    Keeps h.system (contract h) n k (askBytes (.read f)) (fun c log => content f log = some c ∧
      Lawful (Allowed h) log ∧ Stage n k active (fun log => P log ∧ ⟨n, k, .found f c⟩ ∈ log) log) log := by
  refine keeps_op (R := fun _ => True) hP (stable_const True) hs trivial fun log r change _ _ hinv hchange => ?_
  cases r with
  | bytes c =>
    simp only [effect, Option.ite_none_right_eq_some, Option.some.injEq] at hchange
    obtain ⟨hc, rfl⟩ := hchange
    refine ⟨?_, fun hs v hv => ?_⟩
    · rintro _ ⟨⟩
      exact ⟨by simp, hc⟩
    · obtain rfl := Option.some.inj hv
      refine ⟨?_, ⟨hc, hinv⟩, hs.entered, hs.idle, hs.known, List.mem_cons_self⟩
      rw [Entry.after, content_cons_of_ne (by simp), hc]
  | _ => simp [effect] at hchange

/-- What a process may store: it has to be heard, and what goes into `ACTIVE` is a context. -/
structure May (h : Host) (k : Call) (active : Option Bytes) (P : Log → Prop) (f : File) (raw : Bytes) : Prop where
  agrees : Agrees h k active
  root : ∀ log, P log → hasFolder log .root = true
  context : f = .active → StartsContext h k raw

theorem May.mono {f : File} {raw part : Bytes} (hmay : May h k active P f raw) (hpart : part <+: raw) :
    May h k active P f part where
  agrees := hmay.agrees
  root := hmay.root
  context hf := by
    obtain ⟨bundle, target, context, hbundle, htarget, hcontext, hraw⟩ := hmay.context hf
    exact ⟨bundle, target, context, hbundle, htarget, hcontext, hpart.trans hraw⟩

theorem May.allowed {f : File} {c : Bytes} (hmay : May h k active P f c) (hs : Stage n k active P log)
    (hstores : Stores ⟨n, k, .stored f c⟩ f c log) : Allowed h ⟨n, k, .stored f c⟩ log :=
  ⟨hs.heard hmay.agrees _, hstores, hmay.root log hs.known, hmay.context⟩

theorem keeps_openNew (hP : Lasting P) (hs : Stage n k active P log) {f : File} (hmay : May h k active P f []) :
    Keeps h.system (contract h) n k (ask (.openNew f)) (fun opened log => opened = true →
      Stage n k active P log ∧ Holds n k f [] log ∧ ⟨n, k, .stored f []⟩ ∈ log) log := by
  refine keeps_op (R := fun _ => True) hP (stable_const True) hs trivial fun log r change hs _ _ hchange => ?_
  cases r with
  | yes b =>
    simp only [effect, Option.ite_none_right_eq_some, Option.some.injEq] at hchange
    obtain ⟨hb, hchange⟩ := hchange
    cases b with
    | false =>
      subst hchange
      exact ⟨by simp, fun _ v hv hopened => by simp_all⟩
    | true =>
      subst hchange
      have hnone : content f log = none := by simpa using hb.symm
      refine ⟨?_, fun hs v _ _ => ⟨hs, ⟨content_cons_stored, _, List.mem_cons_self⟩, List.mem_cons_self⟩⟩
      rintro _ ⟨⟩
      exact ⟨by simp, hmay.allowed hs (.inl ⟨hnone, rfl⟩)⟩
  | _ => simp [effect] at hchange

theorem keeps_write (hP : Lasting P) {f : File} {part rest : Bytes} (hs : Stage n k active P log)
    (hholds : Holds n k f part log) (hmay : May h k active P f (part ++ rest)) :
    Keeps h.system (contract h) n k (askCount (.write f rest)) (fun count log => Stage n k active P log ∧
      Holds n k f (part ++ rest.take count) log ∧ ⟨n, k, .stored f (part ++ rest.take count)⟩ ∈ log) log := by
  refine keeps_op hP (Holds.stable f part) hs hholds fun log r change hs hholds hinv hchange => ?_
  cases r with
  | count size =>
    simp only [effect, hholds.content, Option.ite_none_right_eq_some, Option.some.injEq] at hchange
    obtain ⟨-, rfl⟩ := hchange
    obtain ⟨c', hmine⟩ := hholds.mine
    refine ⟨?_, fun hs v hv => ?_⟩
    · rintro _ ⟨⟩
      have hpart : part ++ rest.take size <+: part ++ rest := (List.prefix_append_right_inj _).mpr (List.take_prefix _ _)
      refine ⟨by simp, (hmay.mono hpart).allowed hs (.inr ⟨part, hholds.content, List.prefix_append _ _, ?_⟩)⟩
      intro e he c'' hevent
      have hsame := owner_unique hinv he hmine hevent rfl
      exact hsame
    · obtain rfl := Option.some.inj hv
      exact ⟨hs, ⟨content_cons_stored, _, List.mem_cons_self⟩, List.mem_cons_self⟩
  | _ => simp [effect] at hchange

theorem Holds.cons {f : File} {c : Bytes} (hholds : Holds n k f c log) {e : Entry}
    (he : ∀ f c, e.event ≠ .stored f c) : Holds n k f c (e :: log) where
  content := by rw [content_cons_of_ne (he f), hholds.content]
  mine := by
    obtain ⟨c', hmine⟩ := hholds.mine
    exact ⟨c', List.mem_cons_of_mem _ hmine⟩

theorem keeps_sync (hP : Lasting P) (hs : Stage n k active P log) {f : File} {raw : Bytes} (hholds : Holds n k f raw log) :
    Keeps h.system (contract h) n k (done (.sync f)) (fun _ log =>
      Stage n k active (fun log => P log ∧ ⟨n, k, .synced f raw⟩ ∈ log) log ∧ Holds n k f raw log) log := by
  refine keeps_op hP (Holds.stable f raw) hs hholds fun log r change hs hholds _ hchange => ?_
  cases r with
  | done =>
    simp only [effect, hholds.content, Option.map_some, Option.some.injEq] at hchange
    subst hchange
    refine ⟨?_, fun hs _ _ => ⟨⟨hs.entered, hs.idle, hs.known, List.mem_cons_self⟩, hholds.cons (by simp)⟩⟩
    rintro _ ⟨⟩
    exact ⟨by simp, hholds.content⟩
  | _ => simp [effect] at hchange

theorem keeps_syncFolder (hP : Lasting P) (hs : Stage n k active P log) {f : File} {raw : Bytes}
    (hholds : Holds n k f raw log) :
    Keeps h.system (contract h) n k (done (.syncFolder f)) (fun _ log =>
      Stage n k active (fun log => P log ∧ ⟨n, k, .anchored f⟩ ∈ log) log ∧ Holds n k f raw log) log := by
  refine keeps_op hP (Holds.stable f raw) hs hholds fun log r change hs hholds _ hchange => ?_
  cases r with
  | done =>
    obtain rfl := Option.some.inj hchange
    refine ⟨?_, fun hs _ _ => ⟨⟨hs.entered, hs.idle, hs.known, List.mem_cons_self⟩, hholds.cons (by simp)⟩⟩
    rintro _ ⟨⟩
    exact ⟨by simp, trivial⟩
  | _ => simp [effect] at hchange

/-- All of it was written and is safe on the disk. -/
def Kept (n : ℕ) (k : Call) (f : File) (raw : Bytes) (log : Log) : Prop :=
  ⟨n, k, .stored f raw⟩ ∈ log ∧ ⟨n, k, .synced f raw⟩ ∈ log ∧ ⟨n, k, .anchored f⟩ ∈ log

theorem lasting_kept (f : File) (raw : Bytes) : Lasting (Kept n k f raw) :=
  (lasting_mem _).and ((lasting_mem _).and (lasting_mem _))

/-- `exclusive` ends with the whole content in place. -/
theorem keeps_exclusive (hP : Lasting P) (hs : Stage n k active P log) {f : File} {raw : Bytes}
    (hmay : May h k active P f raw) :
    Keeps h.system (contract h) n k (exclusive f raw) (fun _ log =>
      Stage n k active (fun log => P log ∧ Kept n k f raw log) log ∧ Holds n k f raw log) log := by
  refine keeps_bind ((keeps_openNew hP hs (hmay.mono List.nil_prefix)).mono fun opened log hopened => ?_)
  refine keeps_bind (keeps_need fun htrue => ?_)
  let written (part rest : Bytes) (log : Log) : Prop := part ++ rest = raw ∧ Stage n k active P log ∧
    Holds n k f part log ∧ ⟨n, k, .stored f part⟩ ∈ log
  have hparts : Keeps h.system (contract h) n k
      (writeAll (fun rest => askCount (.write f rest)) raw.length raw) (fun _ log => written ([] ++ raw) [] log) log := by
    refine keeps_writeAll (P := written) (fun part rest log _ hpart => ?_) ⟨rfl, hopened htrue⟩
    obtain ⟨hraw, hs, hholds, -⟩ := hpart
    refine (keeps_write hP hs hholds (hraw ▸ hmay)).mono fun count log hstored => ⟨?_, hstored⟩
    rw [List.append_assoc, List.take_append_drop]
    exact hraw
  have hstored := hP.and (lasting_mem ⟨n, k, .stored f raw⟩)
  refine keeps_bind (hparts.mono fun _ log ⟨_, hs, hholds, hmem⟩ => ?_)
  have hs : Stage n k active (fun log => P log ∧ ⟨n, k, .stored f raw⟩ ∈ log) log := ⟨hs.entered, hs.idle, hs.known, hmem⟩
  refine keeps_bind ((keeps_sync hstored hs hholds).mono fun _ log ⟨hs, hholds⟩ => ?_)
  have hsynced := hstored.and (lasting_mem ⟨n, k, .synced f raw⟩)
  refine (keeps_syncFolder hsynced hs hholds).mono fun _ log ⟨hs, hholds⟩ => ⟨⟨hs.entered, hs.idle, ?_⟩, hholds⟩
  exact ⟨hs.known.1.1.1, hs.known.1.1.2, hs.known.1.2, hs.known.2⟩

end Calls

section Contexts
variable {h : Host}

/-- Bytes that begin like a context, or the start of one, are read as UTF-8. -/
theorem decodeDetected_brace {context raw : Bytes} (hcontext : [123, 34, 98, 117] <+: context) (hraw : raw <+: context) :
    decodeDetected raw = decodeUtf8 true raw := by
  obtain ⟨more, rfl⟩ := hcontext
  simp only [List.cons_append, List.nil_append] at hraw
  match raw with
  | [] => rfl
  | [a] =>
    rw [(List.cons_prefix_cons.mp hraw).1]
    rfl
  | [a, b] =>
    simp only [List.cons_prefix_cons] at hraw
    rw [hraw.1, hraw.2.1]
    rfl
  | [a, b, c] =>
    simp only [List.cons_prefix_cons] at hraw
    rw [hraw.1, hraw.2.1, hraw.2.2.1]
    rfl
  | a :: b :: c :: d :: rest =>
    simp only [List.cons_prefix_cons] at hraw
    rw [hraw.1, hraw.2.1, hraw.2.2.1]
    simp [decodeDetected]

theorem context_start {bundle : Text} {target : Json} {context : Bytes} (hcontext : h.context bundle target = some context) :
    [123, 34, 98, 117] <+: context := by
  rw [Host.context, toOption_eq_some, Writer.dumpsBytes, bind_eq_ok] at hcontext
  obtain ⟨printed, hprinted, hcontext⟩ := hcontext
  have hstart : [123, 34, 98, 117] <+: printed := by
    rw [Writer.dumps, Host.writer] at hprinted
    cases hroom : h.room with
    | zero => simp [hroom, Writer.print] at hprinted
    | succ d =>
      simp only [hroom, Writer.print, if_true] at hprinted
      obtain ⟨parts, hparts, hprinted⟩ := bind_eq_ok.mp hprinted
      obtain rfl := Except.ok.inj hprinted
      rw [show sortMembers _ = [(text "bundle_sha256", .str bundle), (text "scope", .str (text "private-azd-install-v1")),
        (text "target", target)] from rfl, mapM_eq_ok, List.forall₂_cons_left_iff] at hparts
      obtain ⟨first, others, hfirst, -, rfl⟩ := hparts
      obtain ⟨value, -, hfirst⟩ := bind_eq_ok.mp hfirst
      obtain rfl := Except.ok.inj hfirst
      have hquote : [34, 98, 117] <+: quote true (text "bundle_sha256") := by decide
      have hparts : quote true (text "bundle_sha256") <+: (text ", ").intercalate
          ((quote true (text "bundle_sha256") ++ text ": " ++ value) :: others) := by
        cases others with
        | nil => exact ⟨text ": " ++ value, by simp [List.intercalate]⟩
        | cons => exact ⟨_, by simp [List.intercalate]; rfl⟩
      exact List.cons_prefix_cons.mpr ⟨rfl, (hquote.trans hparts).trans (List.prefix_append _ _)⟩
  obtain ⟨rest, rfl⟩ := hstart
  split at hcontext
  · next raw hraw =>
    obtain rfl := Except.ok.inj hcontext
    rw [encodeUtf8] at hraw
    split_ifs at hraw
    obtain rfl := Option.some.inj hraw
    exact ⟨rest.flatMap utf8Char, rfl⟩
  · cases hcontext
/-- Of two contents of `ACTIVE`, one behind the other, both are the same value. -/
theorem loads_active {bundle : Text} {target : Json} {context raw raw' : Bytes}
    (hcontext : h.context bundle target = some context) (hraw : raw <+: raw') (hraw' : raw' <+: context) {old old' : Json}
    (hold : h.loads raw = some old) (hold' : h.loads raw' = some old') {named : Json}
    (hnamed : old.item "bundle_sha256" = some named) : old = old' := by
  have hstart := context_start hcontext
  rw [Host.loads, toOption_eq_some, Reader.loadsBytes, decodeDetected_brace hstart (hraw.trans hraw')] at hold
  rw [Host.loads, toOption_eq_some, Reader.loadsBytes, decodeDetected_brace hstart hraw'] at hold'
  split at hold
  · next input hinput =>
    split at hold'
    · next input' hinput' =>
      refine loads_initial (decodeUtf8_initial hraw hinput hinput') hold hold' ?_
      cases old with
      | obj => rfl
      | _ => cases hnamed
    · cases hold'
  · cases hold

end Contexts

section Active
variable {h : Host} {log : Log}

/-- What was in `ACTIVE` when a call began is the start of what is there now. -/
theorem entered_active (hlog : Lawful (Allowed h) log) {n : ℕ} {k : Call} {raw : Bytes}
    (hentered : ⟨n, k, .entered (some raw)⟩ ∈ log) : ∃ raw', content .active log = some raw' ∧ raw <+: raw' := by
  obtain ⟨before, ⟨new, rfl⟩, hallowed⟩ := hlog.of_mem hentered
  exact content_grows hlog hallowed.1.symm

theorem content_law (hlog : Lawful (Allowed h) log) {f : File} {c : Bytes} (hc : content f log = some c) :
    hasFolder log .root = true ∧ ∃ e ∈ log, e.event = .stored f c ∧ (f = .active → StartsContext h e.call c) := by
  obtain ⟨e, he, hevent⟩ := mem_of_content hc
  obtain ⟨before, hbefore, hallowed⟩ := hlog.of_mem he
  simp only [Allowed, hevent] at hallowed
  obtain ⟨e', he', hmade⟩ := List.any_eq_true.mp hallowed.2.2.1
  exact ⟨List.any_eq_true.mpr ⟨e', hbefore.subset he', hmade⟩, e, he, hevent, hallowed.2.2.2⟩

/-- A call that has passed the checks against the `ACTIVE` it read agrees with the one it began with. -/
theorem agrees_of_read (hlog : Lawful (Allowed h) log) {n : ℕ} {k : Call} {active : Option Bytes}
    (hentered : ⟨n, k, .entered active⟩ ∈ log) {raw : Bytes} (hraw : content .active log = some raw) {old named : Json}
    (hold : h.loads raw = some old) (hnamed : old.item "bundle_sha256" = some named) {bundle : Text}
    (hsame : named.same 0 (.str bundle) = true) (hbundle : k.string "bundle_sha256" = some bundle)
    (htarget : k.string "mode" = some (text "submit") → ∃ target wanted, old.item "target" = some target ∧
      k.item "target" = some wanted ∧ target.same h.room wanted = true) : Agrees h k active := by
  rintro first value bundle' rfl hvalue hbundle' -
  obtain ⟨raw', hraw', hinitial⟩ := entered_active hlog hentered
  obtain rfl := Option.some.inj (hraw.symm.trans hraw')
  obtain ⟨_, _, _, hstarts⟩ := (content_law hlog hraw).2
  obtain ⟨_, _, context, -, -, hcontext, hactive⟩ := hstarts rfl
  obtain rfl := loads_active hcontext hinitial hactive hvalue hold hbundle'
  obtain rfl := Option.some.inj (hnamed.symm.trans hbundle')
  obtain rfl : bundle' = bundle := by simpa [Json.same] using hsame
  exact ⟨hbundle, htarget⟩

end Active

section Program
variable {h : Host} {n : ℕ} {k : Call} {active : Option Bytes} {P : Log → Prop} {log : Log}

theorem Stage.weaken {P' : Log → Prop} (hs : Stage n k active P log) (hP : P log → P' log) : Stage n k active P' log :=
  ⟨hs.entered, hs.idle, hP hs.known⟩

theorem Stage.left {P' : Log → Prop} (hs : Stage n k active (fun log => P log ∧ P' log) log) : Stage n k active P log :=
  hs.weaken And.left

theorem Lasting.stable (hP : Lasting P) : Stable h.system (contract h) n P := by
  intro log log' hlog hrely
  obtain ⟨new, rfl, -⟩ := rely_append hrely
  exact hP log new hlog

theorem keeps_reserved (hP : Lasting P) (hs : Stage n k active P log) {bundle mode : Text}
    (hbundle : k.string "bundle_sha256" = some bundle) (hmode : k.string "mode" = some mode) :
    Keeps h.system (contract h) n k (h.reserved k bundle mode)
      (fun _ log => Stage n k active P log ∧ Agrees h k active) log := by
  refine keeps_bind ((keeps_secure hP hs _).mono fun _ log hs => ?_)
  refine keeps_bind ((keeps_read hP hs .active).mono fun raw log ⟨hraw, hlog, hs⟩ => ?_)
  replace hs := hs.left
  refine keeps_bind (keeps_ofOption fun old hold => keeps_bind (keeps_ofOption fun named hnamed => ?_))
  refine keeps_bind (keeps_need fun hsame => ?_)
  have hagrees := agrees_of_read hlog hs.entered hraw hold hnamed hsame hbundle
  split_ifs with hsubmit hobserve
  · refine keeps_bind (keeps_ofOption fun target htarget => keeps_bind (keeps_ofOption fun wanted hwanted => ?_))
    refine keeps_bind (keeps_need fun htargets => ?_)
    refine keeps_bind ((keeps_quiet (quiet_status bundle) hP hs).mono fun _ log hs => ⟨hs, hagrees fun _ => ?_⟩)
    exact ⟨target, wanted, htarget, hwanted, htargets⟩
  · refine keeps_bind ((keeps_quiet (quiet_status bundle) hP hs).mono fun _ log hs => ⟨hs, hagrees fun h => ?_⟩)
    exact absurd (Option.some.inj (hmode.symm.trans h)) hsubmit
  · exact ⟨hs, hagrees fun h => absurd (Option.some.inj (hmode.symm.trans h)) hsubmit⟩

theorem keeps_admitted (hP : Lasting P) (hs : Stage n k active P log) {bundle mode : Text}
    (hbundle : k.string "bundle_sha256" = some bundle) (hmode : k.string "mode" = some mode) :
    Keeps h.system (contract h) n k ( h.admit k bundle mode)
      (fun _ log => Stage n k active P log ∧ Agrees h k active) log := by
  have hasked : Keeps h.system (contract h) n k (ask (.exists .active)) (fun there log =>
      Stage n k active P log ∧ (there = false → Agrees h k active)) log := by
    refine keeps_op (R := fun _ => True) hP (stable_const True) hs trivial fun log r change hs _ hlog hchange => ?_
    obtain rfl := quiet_exists .active k r log change hchange
    refine ⟨by simp, fun hs there hthere => ⟨hs, ?_⟩⟩
    cases r with
    | yes b =>
      obtain rfl := Option.some.inj hthere
      rintro rfl raw _ _ rfl - - -
      obtain ⟨raw', hraw', -⟩ := entered_active hlog hs.entered
      simp [effect, hraw'] at hchange
    | _ => cases hthere
  refine keeps_bind (hasked.mono fun there log ⟨hs, hagrees⟩ => ?_)
  cases there with
  | true => exact keeps_reserved hP hs hbundle hmode
  | false =>
    refine keeps_bind ((keeps_quiet (quiet_present _) hP hs).mono fun _ log hs => ?_)
    exact keeps_bind (keeps_need fun _ => ⟨hs, hagrees rfl⟩)

theorem keeps_upload (hP : Lasting P) (hs : Stage n k active P log) (hagrees : Agrees h k active)
    (hroot : ∀ log, P log → hasFolder log .root = true) (bundle archive : Text) :
    Keeps h.system (contract h) n k (upload k bundle archive) (fun _ => Stage n k active P) log := by
  refine keeps_bind (keeps_ofOption fun ⟨index, data⟩ _ => ?_)
  refine keeps_bind ((keeps_quiet (quiet_exists _) hP hs).mono fun there log hs => ?_)
  split_ifs
  · refine keeps_bind ((keeps_secure hP hs _).mono fun _ log hs => ?_)
    refine keeps_bind ((keeps_read hP hs _).mono fun raw log ⟨_, _, hs⟩ => ?_)
    exact keeps_need fun _ => hs.left
  · refine keeps_bind (keeps_ofOption fun raw _ => ?_)
    exact (keeps_exclusive hP hs ⟨hagrees, hroot, by simp⟩).mono fun _ log ⟨hs, _⟩ => hs.left

/-- The parts that were found, counted from the first one that is read here. -/
def Found (n : ℕ) (k : Call) (bundle archive : Text) (index : ℕ) (parts : List Text) (log : Log) : Prop :=
  ∀ i part, parts[i]? = some part →
    ∃ raw, ⟨n, k, .found (.chunk bundle archive (index + i)) raw⟩ ∈ log ∧ decodeUtf8 false raw = some part

theorem lasting_found (bundle archive : Text) (index : ℕ) (parts : List Text) :
    Lasting (Found n k bundle archive index parts) := by
  intro log new hfound i part hpart
  obtain ⟨raw, hraw, hdecoded⟩ := hfound i part hpart
  exact ⟨raw, List.mem_append_right _ hraw, hdecoded⟩

theorem keeps_readChunks (hP : Lasting P) (hs : Stage n k active P log) (bundle archive : Text) (index count : ℕ) :
    Keeps h.system (contract h) n k (readChunks bundle archive index count) (fun joined log =>
      ∃ parts, joined = parts.flatten ∧ Stage n k active (fun log => P log ∧ Found n k bundle archive index parts log) log)
      log := by
  induction count generalizing index P log with
  | zero => exact ⟨[], rfl, hs.weaken fun hP => ⟨hP, by simp [Found]⟩⟩
  | succ count ih =>
    refine keeps_bind ((keeps_read hP hs _).mono fun raw log ⟨_, _, hs⟩ => ?_)
    refine keeps_bind (keeps_ofOption fun first hfirst => ?_)
    refine keeps_bind ((ih (hP.and (lasting_mem _)) hs (index + 1)).mono ?_)
    rintro _ log ⟨parts, rfl, hs⟩
    refine ⟨first :: parts, rfl, hs.weaken fun ⟨⟨hP, hmem⟩, hparts⟩ => ⟨hP, ?_⟩⟩
    rintro (_ | i) part hpart
    · obtain rfl := Option.some.inj hpart
      exact ⟨raw, hmem, hfirst⟩
    · obtain ⟨raw, hraw, hdecoded⟩ := hparts i part hpart
      exact ⟨raw, by rwa [← Nat.add_assoc, Nat.add_right_comm], hdecoded⟩

theorem keeps_select (hP : Lasting P) (hs : Stage n k active P log) (hagrees : Agrees h k active)
    (hroot : ∀ log, P log → hasFolder log .root = true) (bundle : Text) (raw : Bytes) :
    Keeps h.system (contract h) n k (select bundle raw) (fun _ => Stage n k active P) log := by
  refine keeps_bind ((keeps_haveFolder hP hs hagrees _).mono fun _ log hs => ?_)
  refine keeps_bind ((keeps_quiet (quiet_folderExists _) hP hs).mono fun there log hs => ?_)
  split_ifs
  · exact hs
  · refine keeps_bind ((keeps_makeFolder hP hs hagrees _).mono fun made log hs => ?_)
    refine keeps_bind (keeps_need fun _ => ?_)
    exact (keeps_exclusive hP hs ⟨hagrees, hroot, by simp⟩).mono fun _ log ⟨hs, _⟩ => hs.left

theorem lasting_placed (bundle name : Text) (body : Bytes) : Lasting (Placed n k bundle name body) :=
  fun _ _ hplaced => hplaced.imp (List.mem_append_right _) (List.mem_append_right _)

theorem keeps_place (hP : Lasting P) (hs : Stage n k active P log) (hagrees : Agrees h k active)
    (hroot : ∀ log, P log → hasFolder log .root = true) (bundle name : Text) (metadata : Json) :
    Keeps h.system (contract h) n k (h.place bundle name metadata) (fun _ log => ∃ body, h.body metadata = some body ∧
      Stage n k active (fun log => P log ∧ Placed n k bundle name body log) log) log := by
  refine keeps_bind (keeps_ofOption fun body hbody => ?_)
  refine keeps_bind ((keeps_quiet (quiet_exists _) hP hs).mono fun there log hs => ?_)
  split_ifs
  · refine keeps_bind ((keeps_secure hP hs _).mono fun _ log hs => ?_)
    refine keeps_bind ((keeps_read hP hs _).mono fun raw log ⟨_, _, hs⟩ => ?_)
    refine keeps_need ?_
    rintro rfl
    exact ⟨raw, hbody, hs.weaken fun hknown => ⟨hknown.1, .inr hknown.2⟩⟩
  · refine (keeps_exclusive hP hs ⟨hagrees, hroot, by simp⟩).mono fun _ log ⟨hs, _⟩ => ?_
    exact ⟨body, hbody, hs.weaken fun hknown => ⟨hknown.1, .inl hknown.2.1⟩⟩

/-- All these members of a bundle are in its directory. -/
def PlacedAll (h : Host) (n : ℕ) (k : Call) (bundle : Text) (members : Members) (log : Log) : Prop :=
  ∀ m ∈ members, ∃ body, h.body m.2 = some body ∧ Placed n k bundle m.1 body log

theorem lasting_placedAll (bundle : Text) (members : Members) : Lasting (PlacedAll h n k bundle members) := by
  intro log new hplaced m hm
  obtain ⟨body, hbody, hbodies⟩ := hplaced m hm
  exact ⟨body, hbody, lasting_placed bundle m.1 body log new hbodies⟩

theorem keeps_placeAll (hP : Lasting P) (hs : Stage n k active P log) (hagrees : Agrees h k active)
    (hroot : ∀ log, P log → hasFolder log .root = true) (bundle : Text) (members : Members) :
    Keeps h.system (contract h) n k (h.placeAll bundle members)
      (fun _ => Stage n k active fun log => P log ∧ PlacedAll h n k bundle members log) log := by
  induction members generalizing P log with
  | nil => exact hs.weaken fun hP => ⟨hP, by simp [PlacedAll]⟩
  | cons m members ih =>
    refine keeps_bind ((keeps_place hP hs hagrees hroot bundle m.1 m.2).mono fun _ log ⟨body, hbody, hs⟩ => ?_)
    have hrest := ih (hP.and (lasting_placed bundle m.1 body)) hs fun log hlog => hroot log hlog.1
    refine hrest.mono fun _ log hs => hs.weaken fun ⟨⟨hP, hplaced⟩, hall⟩ => ⟨hP, fun m' hm' => ?_⟩
    rcases List.mem_cons.mp hm' with rfl | hm'
    · exact ⟨body, hbody, hplaced⟩
    · exact hall m' hm'

/-- The names of a dictionary are its keys. -/
theorem packed_names {members : Members} {names : List Text}
    (hnames : (members.map fun m => Json.str m.1).mapM (fun
      | .str name => some name
      | _ => none) = some names) : names = members.map Prod.fst := by
  induction members generalizing names with
  | nil => exact (Option.some.inj hnames).symm
  | cons m members ih =>
    simp only [List.map_cons, List.mapM_cons, Option.bind_eq_bind, Option.bind_eq_some_iff, Option.pure_def,
      Option.some.injEq] at hnames
    obtain ⟨_, rfl, rest, hrest, rfl⟩ := hnames
    rw [List.map_cons, ih hrest]

theorem packed_files {raw : Bytes} {packed : Json} (hpacked : h.packed raw = some packed) {members : Members}
    (hitems : packed.items = some members) :
    packed = .obj members ∧ ∀ name ∈ files, ∃ metadata, (name, metadata) ∈ members := by
  have hobj : packed = .obj members := by
    cases packed with
    | obj members' => rw [Option.some.inj hitems]
    | _ => cases hitems
  refine ⟨hobj, fun name hname => ?_⟩
  simp only [Host.packed, Option.bind_eq_bind, Option.bind_eq_some_iff] at hpacked
  obtain ⟨value, -, hpacked⟩ := hpacked
  split at hpacked
  · simp only [Option.bind_eq_some_iff, Option.guard_eq_some', Option.pure_def, Option.some.injEq] at hpacked
    obtain ⟨_, _, _, _, _, _, found, _, elements, helements, names, hnames, _, ⟨-, hall⟩, rfl⟩ := hpacked
    subst hobj
    obtain rfl := Option.some.inj helements
    obtain rfl := packed_names hnames
    have hmem := of_decide_eq_true (List.all_eq_true.mp hall name hname)
    obtain ⟨m, hm, rfl⟩ := List.mem_map.mp hmem
    exact ⟨m.2, hm⟩
  · cases hpacked

theorem keeps_freshHost (hP : Lasting P) (hs : Stage n k active P log) :
    Keeps h.system (contract h) n k freshHost (fun _ => Stage n k active P) log := by
  have hsilent (what : String) {log : Log} (hs : Stage n k active P log) :
      Keeps h.system (contract h) n k (silent what) (fun _ => Stage n k active P) log :=
    keeps_bind ((keeps_quiet (quiet_docker what) hP hs).mono fun _ _ hs => keeps_need fun _ => hs)
  refine keeps_bind ((keeps_quiet (quiet_present _) hP hs).mono fun data log hs => ?_)
  split_ifs
  · exact keeps_bind ((hsilent "ps" hs).mono fun _ _ hs => hsilent "volume ls" hs)
  · exact hs

/-- The job is submitted by the process that has made `ACTIVE`. -/
theorem keeps_launch {bundle digest : Text} {context : Bytes} (hP : Lasting P) (hs : Stage n k active P log)
    (hholds : Holds n k .active context log) (hagrees : Agrees h k active)
    (hsubmitted : ∀ log, P log → content .active log = some context →
      Submitted h ⟨n, k, .launched bundle digest⟩ bundle digest log) :
    Keeps h.system (contract h) n k (ask (.systemdRun bundle digest))
      (fun _ log => ⟨n, k, .entered active⟩ ∈ log) log := by
  refine keeps_invoke ((Stage.stable hP).and (Holds.stable .active context)) ⟨hs, hholds⟩
    fun log ⟨hs, hholds⟩ hinv r log' heffect => ?_
  obtain ⟨change, hchange, rfl⟩ := Option.map_eq_some_iff.mp heffect
  cases r with
  | yes =>
    obtain rfl := Option.some.inj hchange
    refine ⟨⟨[_], rfl, by simp⟩, ⟨⟨hs.heard hagrees _, hsubmitted log hs.known hholds.content, ?_⟩, hinv⟩,
      fun _ _ => List.mem_cons_of_mem _ hs.entered⟩
    intro e he bundle' digest' hevent
    obtain ⟨before, hbefore, hallowed⟩ := hinv.of_mem he
    simp only [Allowed, hevent] at hallowed
    obtain ⟨_, context', _, _, _, _, _, hstored, _⟩ := hallowed.2.1.active
    obtain ⟨c, hmine⟩ := hholds.mine
    exact hs.idle e he (owner_unique hinv (hbefore.subset hstored) hmine rfl rfl).1 bundle' digest' hevent
  | _ => simp [effect] at hchange

theorem keeps_status (hentered : ⟨n, k, .entered active⟩ ∈ log) (bundle : Text) :
    Keeps h.system (contract h) n k (done (.status bundle)) (fun _ log => ⟨n, k, .entered active⟩ ∈ log) log := by
  refine keeps_invoke (lasting_mem _).stable hentered fun log hentered hinv r log' heffect => ?_
  obtain ⟨change, hchange, rfl⟩ := Option.map_eq_some_iff.mp heffect
  obtain rfl := quiet_status bundle k r log change hchange
  exact ⟨⟨[], rfl, by simp⟩, hinv, fun _ _ => hentered⟩

theorem keeps_submit (hP : Lasting P) (hs : Stage n k active P log) (hagrees : Agrees h k active)
    (hroot : ∀ log, P log → hasFolder log .root = true) {bundle : Text}
    (hbundle : k.string "bundle_sha256" = some bundle) (archive : Text) :
    Keeps h.system (contract h) n k (h.submit k bundle archive) (fun _ log => ⟨n, k, .entered active⟩ ∈ log) log := by
  refine keeps_bind (keeps_ofOption fun count _ => keeps_bind (keeps_need fun _ => ?_))
  refine keeps_bind ((keeps_readChunks hP hs bundle archive 0 count.toNat).mono ?_)
  rintro _ log ⟨parts, rfl, hs⟩
  have hfound := hP.and (lasting_found (n := n) (k := k) bundle archive 0 parts)
  have hrooted : ∀ log, P log ∧ Found n k bundle archive 0 parts log → hasFolder log .root = true :=
    fun log hlog => hroot log hlog.1
  refine keeps_bind (keeps_ofOption fun raw hraw => keeps_bind (keeps_ofOption fun packed hpacked => ?_))
  refine keeps_bind ((keeps_select hfound hs hagrees hrooted bundle raw).mono fun _ log hs => ?_)
  refine keeps_bind ((keeps_secure hfound hs _).mono fun _ log hs => ?_)
  refine keeps_bind ((keeps_read hfound hs _).mono fun kept log ⟨_, _, hs⟩ => ?_)
  replace hs := hs.left
  refine keeps_bind (keeps_need fun _ => keeps_bind (keeps_ofOption fun members hmembers => ?_))
  obtain ⟨rfl, hfiles⟩ := packed_files hpacked hmembers
  refine keeps_bind ((keeps_placeAll hfound hs hagrees hrooted bundle members).mono fun _ log hs => ?_)
  have hplaced := hfound.and (lasting_placedAll (h := h) (n := n) (k := k) bundle members)
  refine keeps_bind ((keeps_freshHost hplaced hs).mono fun _ log hs => ?_)
  refine keeps_bind (keeps_ofOption fun target htarget => keeps_bind (keeps_ofOption fun context hcontext => ?_))
  refine keeps_bind ((keeps_exclusive hplaced hs ⟨hagrees, fun log hlog => hrooted log hlog.1, by simp⟩).mono
    fun _ log ⟨hs, _⟩ => ?_)
  replace hs := hs.left
  refine keeps_bind ((keeps_exclusive hplaced hs ⟨hagrees, fun log hlog => hrooted log hlog.1, fun _ =>
    ⟨bundle, target, context, hbundle, htarget, hcontext, List.prefix_rfl⟩⟩).mono fun _ log ⟨hs, hholds⟩ => ?_)
  have hkept := hplaced.and (lasting_kept (n := n) (k := k) .active context)
  refine keeps_bind ((keeps_launch hkept hs hholds hagrees ?_).mono fun started log hentered => ?_)
  · rintro log ⟨⟨⟨-, hparts⟩, hall⟩, hstored, hsynced, hanchored⟩ hactive
    refine ⟨⟨archive, parts, raw, members, fun i part hpart => ?_, hraw, hpacked, fun name hname => ?_⟩,
      target, context, hbundle, htarget, hcontext, rfl, hactive, hstored, hsynced, hanchored⟩
    · simpa using hparts i part hpart
    · obtain ⟨metadata, hmetadata⟩ := hfiles name hname
      obtain ⟨body, hbody, hbodies⟩ := hall _ hmetadata
      exact ⟨metadata, body, hmetadata, hbody, hbodies⟩
  · exact keeps_bind (keeps_need fun _ => keeps_status hentered bundle)

theorem keeps_proceed (hP : Lasting P) (hs : Stage n k active P log) (hagrees : Agrees h k active)
    (hroot : ∀ log, P log → hasFolder log .root = true) {bundle : Text}
    (hbundle : k.string "bundle_sha256" = some bundle) (mode : Text) :
    Keeps h.system (contract h) n k (h.proceed k bundle mode) (fun _ log => ⟨n, k, .entered active⟩ ∈ log) log := by
  refine keeps_bind ((keeps_haveFolder hP hs hagrees _).mono fun _ log hs => ?_)
  refine keeps_bind ((keeps_haveFolder hP hs hagrees _).mono fun _ log hs => ?_)
  refine keeps_bind (keeps_ofOption fun archive _ => keeps_bind (keeps_need fun _ => ?_))
  refine keeps_bind ((keeps_haveFolder hP hs hagrees _).mono fun _ log hs => ?_)
  split_ifs
  · exact (keeps_upload hP hs hagrees hroot bundle archive).mono fun _ log hs => hs.entered
  · exact keeps_submit hP hs hagrees hroot hbundle archive

theorem keeps_answer (hentered : ⟨n, k, .entered active⟩ ∈ log) (hagrees : Agrees h k active) :
    Keeps h.system (contract h) n k (done .answer) (fun _ _ => True) log := by
  refine keeps_invoke (lasting_mem _).stable hentered fun log hentered hinv r log' heffect => ?_
  obtain ⟨change, hchange, rfl⟩ := Option.map_eq_some_iff.mp heffect
  cases r with
  | done =>
    obtain rfl := Option.some.inj hchange
    exact ⟨⟨[_], rfl, by simp⟩, ⟨⟨active, hentered, hagrees⟩, hinv⟩, fun _ _ => trivial⟩
  | _ => simp [effect] at hchange

/-- Nothing was done by this process yet. -/
def Fresh (n : ℕ) (log : Log) : Prop := ∀ e ∈ log, e.process ≠ n

theorem fresh_stable : Stable h.system (contract h) n (Fresh n) := by
  intro log log' hlog hrely e he
  obtain ⟨new, rfl, hnew⟩ := rely_append hrely
  rcases List.mem_append.mp he with he | he
  · exact hnew e he
  · exact hlog e he

theorem keeps_enter (hfresh : Fresh n log) :
    Keeps h.system (contract h) n k (askCount .enter) (fun _ log => ∃ active, Stage n k active (fun _ => True) log) log := by
  refine keeps_invoke fresh_stable hfresh fun log hfresh hinv r log' heffect => ?_
  obtain ⟨change, hchange, rfl⟩ := Option.map_eq_some_iff.mp heffect
  cases r with
  | count uid =>
    simp only [effect, Option.ite_none_right_eq_some, Option.some.injEq] at hchange
    obtain ⟨-, rfl⟩ := hchange
    refine ⟨⟨[_], rfl, by simp⟩, ⟨⟨rfl, hfresh⟩, hinv⟩, fun _ _ => ⟨_, List.mem_cons_self, fun e he hn => ?_, trivial⟩⟩
    rcases List.mem_cons.mp he with rfl | he
    · simp
    · exact absurd hn (hfresh e he)
  | _ => simp [effect] at hchange

theorem lasting_root : Lasting fun log => hasFolder log .root = true := by
  intro log new hlog
  unfold hasFolder at hlog ⊢
  rw [List.any_append, hlog, Bool.or_true]

/-- The root is made at most where nothing is in it. -/
theorem keeps_root (hs : Stage n k active (fun _ => True) log) :
    Keeps h.system (contract h) n k (haveFolder .root)
      (fun _ => Stage n k active fun log => hasFolder log .root = true) log := by
  refine keeps_bind (Keeps.mono (Q := fun _ => Stage n k active fun log => hasFolder log .root = true) ?_
    fun _ log hs => keeps_secure lasting_root hs _)
  refine keeps_op (R := fun _ => True) lasting_true (stable_const True) hs trivial fun log r change hs _ hlog hchange => ?_
  cases r with
  | yes b =>
    simp only [effect, Option.ite_none_right_eq_some, Option.some.injEq] at hchange
    obtain ⟨hb, rfl⟩ := hchange
    cases b with
    | false => exact ⟨by simp, fun hs _ _ => hs.weaken fun _ => by simpa [Entry.after] using hb.symm⟩
    | true =>
      refine ⟨?_, fun hs _ _ => hs.weaken fun _ => by simp [hasFolder, Entry.after]⟩
      rintro _ ⟨⟩
      refine ⟨by simp, .inl ⟨rfl, ?_⟩⟩
      by_contra hsome
      obtain ⟨c, hc⟩ := Option.ne_none_iff_exists'.mp hsome
      simp [(content_law hlog hc).1] at hb
  | _ => simp [effect] at hchange

theorem keeps_run (hfresh : Fresh n log) : Keeps h.system (contract h) n k (h.run k) (fun _ _ => True) log := by
  refine keeps_bind ((keeps_enter hfresh).mono fun uid log ⟨active, hs⟩ => ?_)
  refine keeps_bind (keeps_need fun _ => keeps_bind (keeps_ofOption fun bundle hbundle => ?_))
  refine keeps_bind (keeps_need fun _ => keeps_bind ((keeps_root hs).mono fun _ log hs => ?_))
  refine keeps_bind (keeps_ofOption fun mode hmode => keeps_bind (keeps_need fun _ => ?_))
  refine keeps_bind ((keeps_admitted lasting_root hs hbundle hmode).mono fun returned log ⟨hs, hagrees⟩ => ?_)
  split_ifs
  · exact keeps_answer hs.entered hagrees
  · refine keeps_bind ((keeps_proceed lasting_root hs hagrees (fun _ h => h) hbundle mode).mono fun _ log hentered => ?_)
    exact keeps_answer hentered hagrees

end Program

theorem sound (h : Host) : Sound h.system (contract h) Fresh [] where
  start_inv := trivial
  start_fresh n := by simp [Fresh]
  disturb_inv e := e.elim
  fresh_stable _ := fresh_stable
  program n k log hfresh _ := keeps_run hfresh

/-- The entries by which a call changes something or answers. -/
def Event.acts : Event → Bool
  | .made _ | .stored _ _ | .launched _ _ | .answered => true
  | .entered _ | .synced _ _ | .anchored _ | .found _ _ => false

def Event.isLaunch : Event → Bool
  | .launched _ _ => true
  | _ => false

end Install

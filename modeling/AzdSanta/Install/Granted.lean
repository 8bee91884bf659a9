import AzdSanta.Common.Sequential
import AzdSanta.Install.Submission

/-! The transport on a host that lets it do what it asks for: every part of a call comes to its end. -/
namespace Install
open Python Processes Sequential

section Host

/-- What is uploaded is one byte a character. -/
theorem isBase64Text_encode {data : Text} (h : isBase64Text data = true) : ∃ raw, encodeUtf8 data = some raw := by
  refine ⟨data.flatMap utf8Char, encodeUtf8_scalars ?_⟩
  intro c hc
  have hchar := List.all_eq_true.mp h c hc
  simp only [isDigit, Bool.or_eq_true, Bool.and_eq_true, decide_eq_true_eq] at hchar
  simp only [isScalar, isSurrogate, Bool.and_eq_true, decide_eq_true_eq, Bool.not_eq_true', Bool.and_eq_false_iff,
    decide_eq_false_iff_not]
  omega

/-- A host where the calls into the system succeed: every path is secure, nothing is installed or runs,
and the job can be started. A write may still take a part. -/
def Favours : Op → Reply → Prop
  | .secure _, .yes b => b = true
  | .present path, .yes b => b = true → path = "/var/lib/docker/volumes"
  | .docker _, .text t => Setup.strip t = []
  | .systemdRun _ _, .yes b => b = true
  | _, _ => True

/-- What the calls of process `n` do. -/
def performed (n : ℕ) (k : Call) (op : Op) (r : Reply) (log log' : Log) : Prop :=
  ∃ change, effect k op r log = some change ∧ log' = Entry.after n k log change

/-- What they do on such a host. -/
def granted (n : ℕ) (k : Call) (op : Op) (r : Reply) (log log' : Log) : Prop :=
  Favours op r ∧ performed n k op r log log'

variable {n : ℕ} {k : Call} {r : Reply} {log log' : Log}

attribute [local simp] effect Favours

theorem granted_enter : granted n k .enter r log log' ↔
    r = .count k.euid ∧ log' = ⟨n, k, .entered (content .active log)⟩ :: log := by
  cases r <;> simp [granted, performed, Entry.after]

theorem granted_makeFolder {folder : Folder} : granted n k (.makeFolder folder) r log log' ↔
    r = .yes (!hasFolder log folder) ∧
      log' = if hasFolder log folder then log else ⟨n, k, .made folder⟩ :: log := by
  cases r with
  | yes b => cases hfolder : hasFolder log folder <;> cases b <;>
      simp [granted, performed, Entry.after, hfolder]
  | done | count | bytes | text => simp [granted, performed]

theorem granted_folderExists {folder : Folder} : granted n k (.folderExists folder) r log log' ↔
    r = .yes (hasFolder log folder) ∧ log' = log := by
  cases r <;> simp [granted, performed, Entry.after]

theorem granted_secure {what : Folder ⊕ File} : granted n k (.secure what) r log log' ↔
    r = .yes true ∧ log' = log := by
  cases r <;> simp [granted, performed, Entry.after]

theorem granted_exists {f : File} : granted n k (.exists f) r log log' ↔
    r = .yes (content f log).isSome ∧ log' = log := by
  cases r <;> simp [granted, performed, Entry.after]

theorem granted_openNew {f : File} (hnone : content f log = none) : granted n k (.openNew f) r log log' ↔
    r = .yes true ∧ log' = ⟨n, k, .stored f []⟩ :: log := by
  cases r with
  | yes b => cases b <;> simp [granted, performed, Entry.after, hnone]
  | done | count | bytes | text => simp [granted, performed]

theorem granted_write {f : File} {part raw : Bytes} (hpart : content f log = some part) :
    granted n k (.write f raw) r log log' ↔
      ∃ size, 0 < size ∧ size ≤ raw.length ∧ r = .count size ∧ log' = ⟨n, k, .stored f (part ++ raw.take size)⟩ :: log := by
  cases r <;> simp [granted, performed, Entry.after, hpart]
  exact and_assoc

theorem granted_sync {f : File} {raw : Bytes} (hraw : content f log = some raw) : granted n k (.sync f) r log log' ↔
    r = .done ∧ log' = ⟨n, k, .synced f raw⟩ :: log := by
  cases r <;> simp [granted, performed, Entry.after, hraw]

theorem granted_syncFolder {f : File} : granted n k (.syncFolder f) r log log' ↔
    r = .done ∧ log' = ⟨n, k, .anchored f⟩ :: log := by
  cases r <;> simp [granted, performed, Entry.after]

theorem granted_read {f : File} {raw : Bytes} (hraw : content f log = some raw) : granted n k (.read f) r log log' ↔
    r = .bytes raw ∧ log' = ⟨n, k, .found f raw⟩ :: log := by
  cases r <;> simp [granted, performed, Entry.after, hraw]
  constructor
  · rintro ⟨rfl, hlog⟩
    exact ⟨rfl, hlog⟩
  · rintro ⟨rfl, hlog⟩
    exact ⟨rfl, hlog⟩

theorem granted_present {path : String} : granted n k (.present path) r log log' ↔
    (∃ b, r = .yes b ∧ (b = true → path = "/var/lib/docker/volumes")) ∧ log' = log := by
  cases r <;> simp [granted, performed, Entry.after]

theorem granted_docker {what : String} : granted n k (.docker what) r log log' ↔
    (∃ t, r = .text t ∧ Setup.strip t = []) ∧ log' = log := by
  cases r <;> simp [granted, performed, Entry.after]

theorem granted_systemdRun {bundle digest : Text} : granted n k (.systemdRun bundle digest) r log log' ↔
    r = .yes true ∧ log' = ⟨n, k, .launched bundle digest⟩ :: log := by
  cases r <;> simp [granted, performed, Entry.after]

theorem granted_status {bundle : Text} : granted n k (.status bundle) r log log' ↔ r = .done ∧ log' = log := by
  cases r <;> simp [granted, performed, Entry.after]

theorem granted_answer : granted n k .answer r log log' ↔ r = .done ∧ log' = ⟨n, k, .answered⟩ :: log := by
  cases r <;> simp [granted, performed, Entry.after]

theorem delivers_call {α : Type} {op : Op} {value : Reply → Option α} {Q : α → Log → Prop} {a : α} {reply : Reply}
    {after : Log} (hop : ∀ r l, granted n k op r log l ↔ r = reply ∧ l = after) (hvalue : value reply = some a)
    (h : Q a after) : Delivers (granted n k) (invoke op value) Q log := by
  apply delivers_invoke
  · exact ⟨reply, after, (hop _ _).mpr ⟨rfl, rfl⟩⟩
  · intro r l hr
    obtain ⟨rfl, rfl⟩ := (hop r l).mp hr
    exact ⟨a, hvalue, h⟩

/-- Files outside of `fs` and the folders of bundles are as they were. -/
structure Keeps (fs : Set File) (log log' : Log) : Prop where
  files : ∀ f ∉ fs, content f log' = content f log
  selected : ∀ bundle, hasFolder log' (.selected bundle) = hasFolder log (.selected bundle)

theorem Keeps.refl (fs : Set File) (log : Log) : Keeps fs log log := ⟨fun _ _ => rfl, fun _ => rfl⟩

theorem Keeps.trans {fs : Set File} {log'' : Log} (h : Keeps fs log log') (h' : Keeps fs log' log'') :
    Keeps fs log log'' :=
  ⟨fun f hf => (h'.files f hf).trans (h.files f hf), fun b => (h'.selected b).trans (h.selected b)⟩

theorem Keeps.mono {fs gs : Set File} (h : Keeps fs log log') (hsub : fs ⊆ gs) : Keeps gs log log' :=
  ⟨fun f hf => h.files f fun hmem => hf (hsub hmem), h.selected⟩

theorem keeps_cons {fs : Set File} {e : Event} (he : ∀ f c, e = .stored f c → f ∈ fs)
    (hmade : ∀ bundle, e ≠ .made (.selected bundle)) : Keeps fs log (⟨n, k, e⟩ :: log) := by
  constructor
  · intro f hf
    exact content_cons_of_ne fun c hc => hf (he f c hc)
  · intro bundle
    simp [hasFolder, hmade bundle]

variable {h : Host} {Q : Unit → Log → Prop}

theorem delivers_secure {what : Folder ⊕ File} (hQ : Q () log) : Delivers (granted n k) (secure what) Q log := by
  apply delivers_bind
  exact delivers_call (fun _ _ => granted_secure) rfl (delivers_need rfl hQ)

theorem delivers_haveFolder {folder : Folder} (hfolder : ∀ bundle, folder ≠ .selected bundle)
    (hQ : ∀ log', Keeps ∅ log log' → Q () log') : Delivers (granted n k) (haveFolder folder) Q log := by
  apply delivers_bind
  apply delivers_call (fun _ _ => granted_makeFolder) rfl
  apply delivers_secure
  apply hQ
  split_ifs
  · exact .refl _ _
  · apply keeps_cons
    · rintro f c ⟨⟩
    · rintro bundle hmade
      exact hfolder bundle (Event.made.inj hmade)

theorem delivers_exists {f : File} {Q : Bool → Log → Prop} (hQ : Q (content f log).isSome log) :
    Delivers (granted n k) (ask (.exists f)) Q log := delivers_call (fun _ _ => granted_exists) rfl hQ

theorem delivers_read {f : File} {raw : Bytes} {Q : Bytes → Log → Prop} (hraw : content f log = some raw)
    (hQ : ∀ log', Keeps ∅ log log' → Q raw log') : Delivers (granted n k) (askBytes (.read f)) Q log := by
  apply delivers_call (fun _ _ => granted_read hraw) rfl
  apply hQ
  apply keeps_cons
  · rintro f c ⟨⟩
  · rintro bundle ⟨⟩

/-- However much a write takes, the loop goes on until all is written. -/
theorem delivers_writeAll {f : File} {fuel : ℕ} {part rest : Bytes} (hpart : content f log = some part)
    (hfuel : rest.length ≤ fuel)
    (hQ : ∀ log', Keeps {f} log log' → content f log' = some (part ++ rest) → Q () log') :
    Delivers (granted n k) (writeAll (fun rest => askCount (.write f rest)) fuel rest) Q log := by
  induction fuel generalizing part rest log with
  | zero =>
    obtain rfl := List.eq_nil_of_length_eq_zero (Nat.le_zero.mp hfuel)
    exact hQ log (.refl _ _) (by rw [List.append_nil]; exact hpart)
  | succ fuel ih =>
    cases rest with
    | nil => exact hQ log (.refl _ _) (by rw [List.append_nil]; exact hpart)
    | cons b rest =>
      apply delivers_bind
      apply delivers_invoke
      · exact ⟨.count (b :: rest).length, _,
          (granted_write hpart).mpr ⟨_, Nat.succ_pos _, le_rfl, rfl, rfl⟩⟩
      · intro r l hr
        obtain ⟨size, hpos, hsize, rfl, rfl⟩ := (granted_write hpart).mp hr
        have hkeeps (c : Bytes) : Keeps {f} log (⟨n, k, .stored f c⟩ :: log) := by
          apply keeps_cons
          · rintro f' c' ⟨⟩
            rfl
          · rintro bundle ⟨⟩
        refine ⟨size, rfl, ih content_cons_stored ?_ fun log' hlog hcontent => ?_⟩
        · rw [List.length_drop]
          omega
        · apply hQ log' ((hkeeps _).trans hlog)
          rw [hcontent, List.append_assoc, List.take_append_drop]

theorem delivers_exclusive {f : File} {raw : Bytes} (hnone : content f log = none)
    (hQ : ∀ log', Keeps {f} log log' → content f log' = some raw → Q () log') :
    Delivers (granted n k) (exclusive f raw) Q log := by
  have hstored (c : Bytes) (log : Log) : Keeps {f} log (⟨n, k, .stored f c⟩ :: log) := by
    apply keeps_cons
    · rintro f' c' ⟨⟩
      rfl
    · rintro bundle ⟨⟩
  apply delivers_bind
  apply delivers_call (fun _ _ => granted_openNew hnone) rfl
  apply delivers_bind
  apply delivers_need rfl
  apply delivers_bind
  apply delivers_writeAll content_cons_stored le_rfl
  intro log' hlog hcontent
  rw [List.nil_append] at hcontent
  apply delivers_bind
  apply delivers_call (fun _ _ => granted_sync hcontent) rfl
  apply delivers_call (fun _ _ => granted_syncFolder) rfl
  apply hQ
  · apply ((hstored [] log).trans hlog).trans
    have hsynced : Keeps {f} log' (⟨n, k, .synced f raw⟩ :: log') :=
      keeps_cons (by rintro f' c ⟨⟩) (by rintro bundle ⟨⟩)
    exact hsynced.trans (keeps_cons (by rintro f' c ⟨⟩) (by rintro bundle ⟨⟩))
  · rw [content_cons_of_ne (by rintro c ⟨⟩), content_cons_of_ne (by rintro c ⟨⟩), hcontent]

/-- `ACTIVE` is not there, or names the bundle. -/
def Open (h : Host) (bundle : Text) (log : Log) : Prop :=
  content .active log = none ∨ ∃ raw old named, content .active log = some raw ∧ h.loads raw = some old ∧
    old.item "bundle_sha256" = some named ∧ named.same 0 (.str bundle) = true

/-- A chunk is on the disk. -/
def Stored (bundle archive : Text) (index : ℕ) (data : Text) (log : Log) : Prop :=
  ∃ raw, content (.chunk bundle archive index) log = some raw ∧ decodeUtf8 false raw = some data

theorem delivers_fresh {mode : Text} {Q : Bool → Log → Prop} (hQ : Q (decide (mode = text "observe")) log) :
    Delivers (granted n k) (fresh mode) Q log := by
  apply delivers_bind
  have hanswer (r : Reply) (l : Log) :
      granted n k (.present "/etc/systemd/system/azd-santa-runtime.service") r log l ↔ r = .yes false ∧ l = log := by
    simp [granted_present]
  apply delivers_call hanswer rfl
  apply delivers_bind
  apply delivers_need rfl
  exact hQ

theorem delivers_admit_chunk {bundle : Text} {Q : Bool → Log → Prop} (hopen : Open h bundle log)
    (hQ : ∀ log', Keeps ∅ log log' → Q false log') : Delivers (granted n k) ( h.admit k bundle (text "chunk")) Q log := by
  apply delivers_bind
  apply delivers_exists
  rcases hopen with hnone | ⟨raw, old, named, hraw, hold, hnamed, hsame⟩
  · rw [hnone]
    exact delivers_fresh (hQ log (.refl _ _))
  · rw [hraw]
    apply delivers_bind
    apply delivers_secure
    apply delivers_bind
    apply delivers_read hraw
    intro log' hlog
    apply delivers_bind
    apply delivers_ofOption hold
    apply delivers_bind
    apply delivers_ofOption hnamed
    apply delivers_bind
    apply delivers_need hsame
    exact hQ log' hlog

theorem delivers_admit_fresh {bundle mode : Text} {Q : Bool → Log → Prop} (hnone : content .active log = none)
    (hQ : Q (decide (mode = text "observe")) log) : Delivers (granted n k) ( h.admit k bundle mode) Q log := by
  apply delivers_bind
  apply delivers_exists
  rw [hnone]
  exact delivers_fresh hQ

theorem delivers_upload {bundle archive data : Text} {index : ℕ} (hchunk : k.chunk = some (index, data))
    (htext : isBase64Text data = true)
    (hstored : content (.chunk bundle archive index) log = none ∨ Stored bundle archive index data log)
    (hQ : ∀ log', Keeps {.chunk bundle archive index} log log' → Stored bundle archive index data log' → Q () log') :
    Delivers (granted n k) (upload k bundle archive) Q log := by
  apply delivers_bind
  apply delivers_ofOption hchunk
  apply delivers_bind
  apply delivers_exists
  rcases hstored with hnone | ⟨raw, hraw, hdecode⟩
  · obtain ⟨raw, hencode⟩ := isBase64Text_encode htext
    rw [hnone]
    apply delivers_bind
    apply delivers_ofOption hencode
    apply delivers_exclusive hnone
    intro log' hlog hcontent
    exact hQ log' hlog ⟨raw, hcontent, decodeUtf8_encodeUtf8 hencode⟩
  · rw [hraw]
    apply delivers_bind
    apply delivers_secure
    apply delivers_bind
    apply delivers_read hraw
    intro log' hlog
    apply delivers_need hdecode
    apply hQ log' (hlog.mono (Set.empty_subset _))
    exact ⟨raw, (hlog.files _ (Set.notMem_empty _)).trans hraw, hdecode⟩

/-- The directory of the bundle is made. -/
theorem delivers_select {bundle : Text} {raw : Bytes} (hselected : hasFolder log (.selected bundle) = false)
    (hnone : content (.bundle bundle) log = none)
    (hQ : ∀ log', (∀ f ≠ .bundle bundle, content f log' = content f log) → content (.bundle bundle) log' = some raw →
      Q () log') : Delivers (granted n k) (select bundle raw) Q log := by
  apply delivers_bind
  apply delivers_haveFolder (by rintro b ⟨⟩)
  intro log₁ h₁
  have hselected₁ := (h₁.selected bundle).trans hselected
  have hnone₁ := (h₁.files _ (Set.notMem_empty _)).trans hnone
  apply delivers_bind
  apply delivers_call (fun _ _ => granted_folderExists) rfl
  rw [hselected₁]
  apply delivers_bind
  apply delivers_call (fun _ _ => granted_makeFolder) rfl
  apply delivers_bind
  apply delivers_need (by rw [hselected₁]; rfl)
  rw [hselected₁]
  have hmade (f : File) : content f (⟨n, k, .made (.selected bundle)⟩ :: log₁) = content f log₁ :=
    content_cons_of_ne (by rintro c ⟨⟩)
  apply delivers_exclusive ((hmade _).trans hnone₁)
  intro log₂ h₂ hcontent
  refine hQ log₂ (fun f hf => ?_) hcontent
  exact ((h₂.files f hf).trans (hmade f)).trans (h₁.files f (Set.notMem_empty _))

theorem delivers_silent {what : String} (hQ : Q () log) : Delivers (granted n k) (silent what) Q log := by
  apply delivers_bind
  apply delivers_invoke
  · exact ⟨.text [], log, granted_docker.mpr ⟨⟨[], rfl, rfl⟩, rfl⟩⟩
  · intro r l hr
    obtain ⟨⟨t, rfl, ht⟩, rfl⟩ := granted_docker.mp hr
    exact ⟨t, rfl, delivers_need ht hQ⟩

theorem delivers_freshHost (hQ : Q () log) : Delivers (granted n k) freshHost Q log := by
  apply delivers_bind
  apply delivers_invoke
  · exact ⟨.yes false, log, granted_present.mpr ⟨⟨false, rfl, by rintro ⟨⟩⟩, rfl⟩⟩
  · intro r l hr
    obtain ⟨⟨data, rfl, -⟩, rfl⟩ := granted_present.mp hr
    refine ⟨data, rfl, ?_⟩
    cases data with
    | true =>
      apply delivers_bind
      exact delivers_silent (delivers_silent hQ)
    | false => exact hQ

/-- The folders of a call. -/
theorem delivers_proceed {bundle archive mode : Text} (harchive : k.string "archive_sha256" = some archive)
    (hhex : Setup.isHex 64 archive = true)
    (hrest : ∀ log', Keeps ∅ log log' →
      Delivers (granted n k) (if mode = text "chunk" then upload k bundle archive else h.submit k bundle archive) Q log') :
    Delivers (granted n k) (h.proceed k bundle mode) Q log := by
  apply delivers_bind
  apply delivers_haveFolder (by rintro b ⟨⟩)
  intro log₁ h₁
  apply delivers_bind
  apply delivers_haveFolder (by rintro b ⟨⟩)
  intro log₂ h₂
  apply delivers_bind
  apply delivers_ofOption harchive
  apply delivers_bind
  apply delivers_need hhex
  apply delivers_bind
  apply delivers_haveFolder (by rintro b ⟨⟩)
  intro log₃ h₃
  exact hrest log₃ ((h₁.trans h₂).trans h₃)

/-- The beginning of a call. -/
theorem delivers_run {bundle mode : Text} (huid : k.euid = 0) (hkeys : k.value.all (fun m => m.1 ∈ keys) = true)
    (hbundle : k.string "bundle_sha256" = some bundle) (hhex : Setup.isHex 64 bundle = true)
    (hmode : k.string "mode" = some mode) (hmodes : mode ∈ [text "chunk", text "submit", text "observe"])
    (hadmits : ∀ log', Keeps ∅ log log' → Delivers (granted n k) ( h.admit k bundle mode)
      (fun returned log'' => returned = false ∧ Keeps ∅ log log'') log')
    (hproceed : ∀ log', Keeps ∅ log log' → Delivers (granted n k) (h.proceed k bundle mode)
      (fun _ log'' => Q () (⟨n, k, .answered⟩ :: log'')) log') :
    Delivers (granted n k) (h.run k) Q log := by
  apply delivers_bind
  apply delivers_call (fun _ _ => granted_enter) rfl
  apply delivers_bind
  apply delivers_need ⟨huid, hkeys⟩
  apply delivers_bind
  apply delivers_ofOption hbundle
  apply delivers_bind
  apply delivers_need hhex
  apply delivers_bind
  apply delivers_haveFolder (by rintro b ⟨⟩)
  intro log₁ h₁
  have hentered : Keeps ∅ log (⟨n, k, .entered (content .active log)⟩ :: log) :=
    keeps_cons (by rintro f' c ⟨⟩) (by rintro bundle ⟨⟩)
  apply delivers_bind
  apply delivers_ofOption hmode
  apply delivers_bind
  apply delivers_need hmodes
  apply delivers_bind
  apply (hadmits log₁ (hentered.trans h₁)).mono
  rintro returned log₂ ⟨rfl, h₂⟩
  apply delivers_bind
  apply (hproceed log₂ h₂).mono
  intro _ log₃ hQ
  exact delivers_call (fun _ _ => granted_answer) rfl hQ

end Host

end Install

import AzdSanta.Setup.Envelope
import AzdSanta.Setup.Run

/-! One setup for each context: whatever calls are made and wherever they stop. -/
namespace Setup
open Python Processes

section Artifacts
variable {h : Host}

/-- An artifact that can be read is there as a whole. -/
theorem stripBytes_whole {json raw : Bytes} (hwhole : h.isWhole json = true) (hraw : raw <+: json ++ [10]) {v : Json}
    (hload : h.loads (.bytes (stripBytes raw)) = some v) : stripBytes raw = json := by
  simp only [Host.isWhole, Bool.and_eq_true, decide_eq_true_eq, List.all_eq_true, List.mem_inits, Bool.or_eq_true,
    Option.isNone_iff_eq_none] at hwhole
  obtain ⟨⟨hfirst, hlast⟩, hparts⟩ := hwhole
  have hpart {part : Bytes} (hinitial : part <+: json) (hsome : h.loads (.bytes part) = some v) : part = json := by
    rcases hparts part hinitial with heq | hnone
    · exact heq
    · rw [hnone] at hsome
      cases hsome
  have hstart {raw : Bytes} (hne : raw ≠ []) (hinitial : raw <+: json ++ [10]) : raw.dropWhile isSpaceByte = raw := by
    obtain ⟨b, rest, rfl⟩ := List.exists_cons_of_ne_nil hne
    obtain ⟨init, rfl⟩ := List.head?_eq_some_iff.mp hfirst
    obtain ⟨rfl, -⟩ := List.cons_prefix_cons.mp hinitial
    exact List.dropWhile_cons_of_neg (by decide)
  rcases List.prefix_concat_iff.mp hraw with rfl | hinitial
  · obtain ⟨init, rfl⟩ := List.getLast?_eq_some_iff.mp hlast
    rw [stripBytes, hstart (by simp) List.prefix_rfl, List.rdropWhile_concat_pos _ _ _ (by decide),
      List.rdropWhile_concat_neg _ _ _ (by decide)]
  · rcases eq_or_ne raw [] with rfl | hne
    · exact hpart List.nil_prefix hload
    · rw [stripBytes, hstart hne hraw] at hload ⊢
      exact hpart ((List.rdropWhile_prefix _ _).trans hinitial) hload

end Artifacts

section Contract

/-- The context that a call asks for. -/
def Asks (h : Host) (k : Call) (context : Text) : Prop :=
  ∃ request raw, h.requestFromEnvironment k.request = some (request, raw) ∧ request.contextSha256 = context

/-- What can be entered behind `before`. -/
def Allowed (h : Host) (e : Entry) (before : List Entry) : Prop :=
  match e.event with
  | .reserved context =>
    (∀ e' ∈ before, e'.event ≠ .reserved context) ∧ e.call.operation = text "create" ∧ Asks h e.call context
  | .stored _ _ _ => True
  | .started context =>
    (∀ e' ∈ before, e'.event ≠ .started context) ∧ ⟨e.process, e.call, .reserved context⟩ ∈ before
  | .printed context _ =>
    ∃ request raw, h.requestFromEnvironment e.call.request = some (request, raw) ∧
      request.contextSha256 = context ∧ ∃ e' ∈ before, e'.event = .stored context .request raw

/-- The line that the artifact of a context, checked for the one who reserved it, is printed as. -/
def Answers (h : Host) (s : Disk) (context line : Text) : Prop :=
  ∃ artifact o request raw sealed printed, s.artifacts context = some artifact ∧ o ∈ s.log ∧
    o.event = .reserved context ∧ h.requestFromEnvironment o.call.request = some (request, raw) ∧
    h.envelope (.bytes artifact.json) request = some sealed ∧ decodeAscii sealed = some printed ∧
    line = marker ++ printed

structure Inv (h : Host) (s : Disk) : Prop where
  lawful : Lawful (Allowed h) s.log
  folders : ∀ context, context ∈ s.folders ↔ ∃ e ∈ s.log, e.event = .reserved context
  files : ∀ context name content, s.files context name = some content →
    ∃ e ∈ s.log, e.event = .stored context name content
  requests : ∀ e ∈ s.log, ∀ context content, e.event = .stored context .request content →
    ∃ o ∈ s.log, o.event = .reserved context ∧
      ∃ request raw, h.requestFromEnvironment o.call.request = some (request, raw) ∧ content <+: raw
  artifacts : ∀ context artifact, s.artifacts context = some artifact → h.isWhole artifact.json = true
  printed : ∀ e ∈ s.log, ∀ context line, e.event = .printed context line → Answers h s context line

/-- What process `n` may do. -/
structure Own (n : ℕ) (s s' : Disk) : Prop where
  log : ∃ new, s'.log = new ++ s.log ∧ ∀ e ∈ new, e.process = n
  files : ∀ context, s'.files context = s.files context ∨
    ∃ e ∈ s'.log, e.process = n ∧ e.event = .reserved context
  artifacts : s'.artifacts = s.artifacts

def contract (h : Host) : Contract Disk := ⟨Inv h, Own⟩

variable {h : Host} {s s' : Disk} {n : ℕ} {k : Call}

/-- The one who reserved a context. -/
theorem Inv.reserved_unique (hs : Inv h s) {e e' : Entry} (he : e ∈ s.log) (he' : e' ∈ s.log) {context : Text}
    (hevent : e.event = .reserved context) (hevent' : e'.event = .reserved context) : e = e' := by
  have hlawful := hs.lawful
  revert he he'
  generalize s.log = log at hlawful
  induction log with
  | nil => simp
  | cons first log ih =>
    have hfirst : first.event = .reserved context → ∀ e ∈ log, e.event ≠ .reserved context := by
      intro hfirst
      have hallowed := hlawful.1
      simp only [Allowed, hfirst] at hallowed
      exact hallowed.1
    intro he he'
    rcases List.mem_cons.mp he with rfl | hold
    · rcases List.mem_cons.mp he' with rfl | hold'
      · rfl
      · exact absurd hevent' (hfirst hevent e' hold')
    · rcases List.mem_cons.mp he' with rfl | hold'
      · exact absurd hevent (hfirst hevent' e hold)
      · exact ih hlawful.2 hold hold'

theorem Own.refl (n : ℕ) (s : Disk) : Own n s s := ⟨⟨[], rfl, by simp⟩, fun _ => Or.inl rfl, rfl⟩

/-- The log only grows, and an artifact keeps its text. -/
structure Grows (s s' : Disk) : Prop where
  log : ∀ e ∈ s.log, e ∈ s'.log
  artifacts : ∀ context artifact, s.artifacts context = some artifact →
    ∃ artifact', s'.artifacts context = some artifact' ∧ artifact'.json = artifact.json

theorem Own.grows (hown : Own n s s') : Grows s s' := by
  obtain ⟨new, hlog, -⟩ := hown.log
  refine ⟨fun e he => hlog ▸ List.mem_append_right _ he, fun context artifact hartifact => ⟨artifact, ?_, rfl⟩⟩
  rw [hown.artifacts, hartifact]

theorem progress_spec {p : Progress} (hp : h.progress p s = some s') :
    s'.log = s.log ∧ s'.files = s.files ∧ s'.folders = s.folders ∧ Grows s s' ∧
      ∀ context artifact, s'.artifacts context = some artifact → h.isWhole artifact.json = true ∨
        ∃ before, s.artifacts context = some before ∧ before.json = artifact.json := by
  cases p with
  | reserve target json =>
    simp only [Host.progress, Option.ite_none_right_eq_some, Option.some.injEq] at hp
    obtain ⟨⟨-, hnone, hwhole⟩, rfl⟩ := hp
    refine ⟨rfl, rfl, rfl, ⟨fun e he => he, fun context artifact hartifact => ?_⟩, fun context artifact hartifact => ?_⟩
    · have hne : context ≠ target := by
        rintro rfl
        simp [hartifact] at hnone
      exact ⟨artifact, by simp [hne, hartifact], rfl⟩
    · dsimp only at hartifact
      split_ifs at hartifact
      · obtain rfl := Option.some.inj hartifact
        exact Or.inl hwhole
      · exact Or.inr ⟨artifact, hartifact, rfl⟩
  | write target size =>
    simp only [Host.progress] at hp
    split at hp
    · next old hold =>
      simp only [Option.ite_none_right_eq_some, Option.some.injEq] at hp
      obtain ⟨-, rfl⟩ := hp
      refine ⟨rfl, rfl, rfl, ⟨fun e he => he, fun context artifact hartifact => ?_⟩,
        fun context artifact hartifact => Or.inr ?_⟩
      · by_cases heq : context = target
        · subst heq
          obtain rfl := Option.some.inj (hold.symm.trans hartifact)
          exact ⟨_, if_pos rfl, rfl⟩
        · exact ⟨artifact, by simp [heq, hartifact], rfl⟩
      · dsimp only at hartifact
        split_ifs at hartifact with heq
        · obtain rfl := Option.some.inj hartifact
          exact ⟨old, heq ▸ hold, rfl⟩
        · exact ⟨artifact, hartifact, rfl⟩
    · cases hp

theorem Answers.grows {context line : Text} (hline : Answers h s context line) (hs : Grows s s') :
    Answers h s' context line := by
  obtain ⟨artifact, o, request, raw, sealed, printed, hartifact, ho, hreserved, hrequest, hsealed, hprinted,
    hline⟩ := hline
  obtain ⟨artifact', hartifact', hjson⟩ := hs.artifacts context artifact hartifact
  exact ⟨artifact', o, request, raw, sealed, printed, hartifact', hs.log o ho, hreserved, hrequest, hjson ▸ hsealed,
    hprinted, hline⟩

/-- The command breaks nothing. -/
theorem Inv.progress (hs : Inv h s) {p : Progress} (hp : h.progress p s = some s') : Inv h s' := by
  obtain ⟨hlog, hfiles, hfolders, hgrows, hartifacts⟩ := progress_spec hp
  refine ⟨hlog ▸ hs.lawful, ?_, ?_, ?_, fun context artifact hartifact => ?_, ?_⟩
  · rw [hlog, hfolders]
    exact hs.folders
  · rw [hlog, hfiles]
    exact hs.files
  · rw [hlog]
    exact hs.requests
  · rcases hartifacts context artifact hartifact with hwhole | ⟨before, hbefore, hjson⟩
    · exact hwhole
    · exact hjson ▸ hs.artifacts context before hbefore
  · rw [hlog]
    exact fun e he context line hevent => (hs.printed e he context line hevent).grows hgrows

/-- One more entry, with what it says about the files. -/
theorem Inv.enter (hs : Inv h s) {e : Entry} (hlog : s'.log = e :: s.log) (hartifacts : s'.artifacts = s.artifacts)
    (hallowed : Allowed h e s.log)
    (hfolders : ∀ context, context ∈ s'.folders ↔ context ∈ s.folders ∨ e.event = .reserved context)
    (hfiles : ∀ context name content, s'.files context name = some content →
      s.files context name = some content ∨ e.event = .stored context name content)
    (hrequests : ∀ context content, e.event = .stored context .request content →
      ∃ o ∈ s.log, o.event = .reserved context ∧
        ∃ request raw, h.requestFromEnvironment o.call.request = some (request, raw) ∧ content <+: raw)
    (hprinted : ∀ context line, e.event = .printed context line → Answers h s context line) : Inv h s' := by
  have hgrows : Grows s s' := by
    refine ⟨fun e he => hlog ▸ List.mem_cons_of_mem _ he, fun context artifact hartifact => ⟨artifact, ?_, rfl⟩⟩
    rw [hartifacts, hartifact]
  refine ⟨?_, fun context => ?_, fun context name content hcontent => ?_, ?_, ?_, ?_⟩
  · rw [hlog]
    exact ⟨hallowed, hs.lawful⟩
  · rw [hfolders, hs.folders, hlog]
    simp only [List.mem_cons, exists_eq_or_imp]
    exact or_comm
  · rw [hlog]
    rcases hfiles context name content hcontent with hold | hnew
    · obtain ⟨e', he', hevent⟩ := hs.files context name content hold
      exact ⟨e', List.mem_cons_of_mem _ he', hevent⟩
    · exact ⟨e, List.mem_cons_self, hnew⟩
  · intro e' he' context content hevent
    rw [hlog] at he'
    have hold : ∃ o ∈ s.log, o.event = .reserved context ∧
        ∃ request raw, h.requestFromEnvironment o.call.request = some (request, raw) ∧ content <+: raw := by
      rcases List.mem_cons.mp he' with rfl | he'
      · exact hrequests context content hevent
      · exact hs.requests e' he' context content hevent
    obtain ⟨o, ho, hreserved⟩ := hold
    exact ⟨o, hgrows.log o ho, hreserved⟩
  · rw [hartifacts]
    exact hs.artifacts
  · intro e' he' context line hevent
    rw [hlog] at he'
    rcases List.mem_cons.mp he' with rfl | he'
    · exact (hprinted context line hevent).grows hgrows
    · exact (hs.printed e' he' context line hevent).grows hgrows

end Contract

section Stages
variable {h : Host} {s s' : Disk} {n : ℕ} {k : Call} {context : Text} {P : Disk → Prop}

theorem rely_grows (hs : Rely h.system (contract h) n s s') : Grows s s' := by
  rcases hs.other with ⟨p, hp⟩ | ⟨m, -, hown⟩
  · exact (progress_spec hp).2.2.2.1
  · exact hown.grows

/-- Once it holds, it holds for good. -/
def Lasting (P : Disk → Prop) : Prop := ∀ s s', Grows s s' → P s → P s'

theorem Lasting.stable (hP : Lasting P) : Stable h.system (contract h) n P :=
  fun s s' hs hrely => hP s s' (rely_grows hrely) hs

theorem Lasting.and {P' : Disk → Prop} (hP : Lasting P) (hP' : Lasting P') : Lasting fun s => P s ∧ P' s :=
  fun s s' hs h => ⟨hP s s' hs h.1, hP' s s' hs h.2⟩

theorem lasting_mem (e : Entry) : Lasting fun s => e ∈ s.log := fun _ _ hs => hs.log e

theorem lasting_const (p : Prop) : Lasting fun _ => p := fun _ _ _ hp => hp

/-- The process that has reserved a context, before or after it started the command. -/
structure Stage (n : ℕ) (k : Call) (context : Text) (launched : Bool) (P : Disk → Prop) (s : Disk) : Prop where
  held : ⟨n, k, .reserved context⟩ ∈ s.log
  idle : launched = false → ∀ e ∈ s.log, e.event ≠ .started context
  known : P s

/-- Nobody else has reserved the context. -/
theorem other_process (hs : Inv h s) (hheld : ⟨n, k, .reserved context⟩ ∈ s.log) {e : Entry} (he : e ∈ s.log)
    (hevent : e.event = .reserved context) : e.process = n := by
  rw [hs.reserved_unique he hheld hevent rfl]

theorem Stage.stable {launched : Bool} (hP : Lasting P) :
    Stable h.system (contract h) n (Stage n k context launched P) := by
  intro s s' hs hrely
  have hgrows := rely_grows hrely
  refine ⟨hgrows.log _ hs.held, fun hlaunched e he hevent => ?_, hP s s' hgrows hs.known⟩
  rcases hrely.other with ⟨p, hp⟩ | ⟨m, hm, hown⟩
  · exact hs.idle hlaunched e ((progress_spec hp).1 ▸ he) hevent
  · obtain ⟨new, hlog, hnew⟩ := hown.log
    rw [hlog] at he
    rcases List.mem_append.mp he with hfresh | hold
    · -- Only the one who reserved the context starts the command.
      obtain ⟨before, hbefore, hallowed⟩ := hrely.after.lawful.of_mem (hlog ▸ he)
      simp only [Allowed, hevent] at hallowed
      have hreserved := hbefore.subset hallowed.2
      have hprocess := other_process hrely.after (hgrows.log _ hs.held) hreserved rfl
      exact hm ((hnew e hfresh).symm.trans hprocess)
    · exact hs.idle hlaunched e hold hevent

theorem stage_file_stable {launched : Bool} (hP : Lasting P) (name : File) (content : Bytes) :
    Stable h.system (contract h) n fun s => Stage n k context launched P s ∧ s.files context name = some content := by
  intro s s' hs hrely
  refine ⟨Stage.stable hP hs.1 hrely, ?_⟩
  rcases hrely.other with ⟨p, hp⟩ | ⟨m, hm, hown⟩
  · rw [(progress_spec hp).2.1]
    exact hs.2
  · rcases hown.files context with hsame | ⟨e, he, hprocess, hevent⟩
    · rw [hsame]
      exact hs.2
    · have hother := other_process hrely.after ((rely_grows hrely).log _ hs.1.held) he hevent
      exact absurd (hprocess.symm.trans hother) hm

end Stages

section Calls
variable {h : Host} {s s' : Disk} {n : ℕ} {k : Call} {context : Text} {P : Disk → Prop} {α : Type}
  {Q : α → Disk → Prop} {launched : Bool}

attribute [local simp] effect

/-- A call that only looks. -/
def Quiet (op : Op) : Prop := ∀ n k r s s', effect n k op r s = some s' → s' = s

theorem keeps_quiet {op : Op} {value : Reply → Option α} (hquiet : Quiet op)
    (hP : Stable h.system (contract h) n P) (hs : P s)
    (hQ : ∀ s r a, P s → Inv h s → effect n k op r s = some s → value r = some a → Q a s) :
    Keeps h.system (contract h) n k (invoke op value) Q s := by
  refine keeps_invoke hP hs fun s hs hinv r s' heffect => ?_
  obtain rfl := hquiet n k r s s' heffect
  exact ⟨Own.refl n s', hinv, fun a ha => hQ s' r a hs hinv heffect ha⟩

theorem quiet_privatePath (path : Path) : Quiet (.privatePath path) := by
  intro n k r s s' heffect
  cases r <;> simp only [effect, reduceCtorEq, Option.ite_none_right_eq_some, Option.some.injEq] at heffect
  exact heffect.2.symm

theorem quiet_read (context : Text) (name : File) : Quiet (.read context name) := by
  intro n k r s s' heffect
  cases name <;> cases r <;>
    simp only [effect, reduceCtorEq, Option.ite_none_right_eq_some, Option.some.injEq] at heffect
  all_goals first | exact heffect.2.symm | exact heffect.symm

theorem quiet_exists (context : Text) (name : File) : Quiet (.exists context name) := by
  intro n k r s s' heffect
  cases r <;> simp only [effect, reduceCtorEq, Option.ite_none_right_eq_some, Option.some.injEq] at heffect
  exact heffect.2.symm

theorem quiet_readArtifact (web context : Text) : Quiet (.readArtifact web context) := by
  intro n k r s s' heffect
  cases r <;> simp only [effect, reduceCtorEq] at heffect
  split at heffect
  · simp only [Option.ite_none_right_eq_some, Option.some.injEq] at heffect
    exact heffect.2.symm
  · cases heffect

theorem quiet_wait (context : Text) : Quiet (.wait context) := by
  intro n k r s s' heffect
  cases r <;> simp only [effect, reduceCtorEq, Option.some.injEq] at heffect
  exact heffect.symm

/-- A file of the context that the process has reserved gets another content. -/
theorem Stage.store (hs : Stage n k context launched P s) (hinv : Inv h s) (hP : Lasting P) {name : File}
    {content : Bytes} (hcontent : name = .request →
      ∃ request raw, h.requestFromEnvironment k.request = some (request, raw) ∧ content <+: raw)
    (hs' : s' = (s.put context name content).enter n k (.stored context name content)) :
    Own n s s' ∧ Inv h s' ∧ Stage n k context launched P s' ∧ s'.files context name = some content ∧
      ⟨n, k, .stored context name content⟩ ∈ s'.log := by
  have hlog : s'.log = ⟨n, k, .stored context name content⟩ :: s.log := hs' ▸ rfl
  have hartifacts : s'.artifacts = s.artifacts := hs' ▸ rfl
  have hfiles (c : Text) (f : File) :
      s'.files c f = if c = context ∧ f = name then some content else s.files c f := hs' ▸ rfl
  have hown : Own n s s' := by
    refine ⟨⟨[⟨n, k, .stored context name content⟩], hlog, by simp⟩, fun c => ?_, hartifacts⟩
    by_cases hc : c = context
    · subst hc
      exact Or.inr ⟨_, hlog ▸ List.mem_cons_of_mem _ hs.held, rfl, rfl⟩
    · left
      funext f
      simp [hfiles, hc]
  refine ⟨hown, hinv.enter hlog hartifacts trivial ?_ ?_ ?_ ?_, ?_, by simp [hfiles], hlog ▸ List.mem_cons_self⟩
  · simp [hs', Disk.enter, Disk.put]
  · intro c f b hb
    rw [hfiles] at hb
    split_ifs at hb with heq
    · obtain ⟨rfl, rfl⟩ := heq
      obtain rfl := Option.some.inj hb
      exact Or.inr rfl
    · exact Or.inl hb
  · intro c b hevent
    obtain ⟨rfl, rfl, rfl⟩ := Event.stored.inj hevent
    exact ⟨_, hs.held, rfl, hcontent rfl⟩
  · intro c line hevent
    cases hevent
  · refine ⟨hown.grows.log _ hs.held, fun hlaunched e he => ?_, hP s s' hown.grows hs.known⟩
    rw [hlog] at he
    rcases List.mem_cons.mp he with rfl | he
    · simp
    · exact hs.idle hlaunched e he

theorem keeps_openNew (hP : Lasting P) (hs : Stage n k context launched P s) {name : File}
    (hname : name = .request → ∃ request raw, h.requestFromEnvironment k.request = some (request, raw)) :
    Keeps h.system (contract h) n k (openNew context name) (fun _ s => Stage n k context launched P s ∧
      s.files context name = some [] ∧ ⟨n, k, .stored context name []⟩ ∈ s.log) s := by
  refine keeps_bind (keeps_invoke (Stage.stable hP) hs fun s hs hinv r s' heffect => ?_)
  have hstart : name = .request →
      ∃ request raw, h.requestFromEnvironment k.request = some (request, raw) ∧ [] <+: raw := by
    intro heq
    obtain ⟨request, raw, hrequest⟩ := hname heq
    exact ⟨request, raw, hrequest, List.nil_prefix⟩
  cases r with
  | yes b =>
    simp only [Host.system, effect, Option.ite_none_right_eq_some, Option.some.injEq] at heffect
    obtain ⟨-, heffect⟩ := heffect
    cases b with
    | true =>
      obtain ⟨hown, hinv', hstored⟩ := hs.store hinv hP hstart heffect.symm
      exact ⟨hown, hinv', fun a _ => keeps_need fun _ => hstored⟩
    | false =>
      obtain rfl := heffect
      refine ⟨Own.refl n s, hinv, fun a ha => keeps_need fun hopened => ?_⟩
      cases Option.some.inj ha
      cases hopened
  | done | count | bytes | text | code => simp [Host.system, effect] at heffect

theorem keeps_write (hP : Lasting P) {name : File} {written rest : Bytes}
    (hs : Stage n k context launched P s ∧ s.files context name = some written)
    (hname : name = .request →
      ∃ request raw, h.requestFromEnvironment k.request = some (request, raw) ∧ written ++ rest = raw) :
    Keeps h.system (contract h) n k (askCount (.write context name rest)) (fun count s =>
      Stage n k context launched P s ∧ s.files context name = some (written ++ rest.take count) ∧
        ⟨n, k, .stored context name (written ++ rest.take count)⟩ ∈ s.log) s := by
  refine keeps_invoke (stage_file_stable hP name written) hs fun s hs hinv r s' heffect => ?_
  cases r with
  | count size =>
    simp only [Host.system, effect, hs.2, Option.ite_none_right_eq_some, Option.some.injEq] at heffect
    obtain ⟨-, heffect⟩ := heffect
    have hcontent : name = .request → ∃ request raw, h.requestFromEnvironment k.request = some (request, raw) ∧
        written ++ rest.take size <+: raw := by
      intro heq
      obtain ⟨request, raw, hrequest, rfl⟩ := hname heq
      exact ⟨request, _, hrequest, List.prefix_append_right_inj _ |>.mpr (List.take_prefix size rest)⟩
    obtain ⟨hown, hinv', hstored⟩ := hs.1.store hinv hP hcontent heffect.symm
    refine ⟨hown, hinv', fun a ha => ?_⟩
    obtain rfl := Option.some.inj ha
    exact hstored
  | done | yes | bytes | text | code => simp [Host.system, effect] at heffect

/-- `write_new` ends with the whole content in place. -/
theorem keeps_writeNew (hP : Lasting P) (hs : Stage n k context launched P s) {name : File} {raw : Bytes}
    (hname : name = .request → ∃ request, h.requestFromEnvironment k.request = some (request, raw)) :
    Keeps h.system (contract h) n k (writeNew context name raw)
      (fun _ => Stage n k context launched fun s => P s ∧ ⟨n, k, .stored context name raw⟩ ∈ s.log) s := by
  refine keeps_bind ((keeps_openNew hP hs fun heq => ?_).mono fun _ s hopened => ?_)
  · obtain ⟨request, hrequest⟩ := hname heq
    exact ⟨request, raw, hrequest⟩
  · let written (part rest : Bytes) (s : Disk) : Prop := part ++ rest = raw ∧ Stage n k context launched P s ∧
      s.files context name = some part ∧ ⟨n, k, .stored context name part⟩ ∈ s.log
    have hparts : Keeps h.system (contract h) n k
        (writeAll (fun rest => askCount (.write context name rest)) raw.length raw)
        (fun _ s => written ([] ++ raw) [] s) s := by
      refine keeps_writeAll (P := written) (fun part rest s _ hpart => ?_) ⟨rfl, hopened⟩
      refine (keeps_write hP ⟨hpart.2.1, hpart.2.2.1⟩ fun heq => ?_).mono fun count s hstored => ⟨?_, hstored⟩
      · obtain ⟨request, hrequest⟩ := hname heq
        exact ⟨request, raw, hrequest, hpart.1⟩
      · rw [List.append_assoc, List.take_append_drop]
        exact hpart.1
    refine hparts.mono fun _ s hall => ?_
    exact ⟨hall.2.1.held, hall.2.1.idle, hall.2.1.known, hall.2.2.2⟩

theorem keeps_operatorAccess (hP : Lasting P) (hs : Stage n k context false P s) :
    Keeps h.system (contract h) n k (done (.operatorAccess context))
      (fun _ => Stage n k context true P) s := by
  refine keeps_invoke (Stage.stable hP) hs fun s hs hinv r s' heffect => ?_
  cases r with
  | done =>
    obtain rfl := Option.some.inj heffect
    have hlog : (s.enter n k (.started context)).log = ⟨n, k, .started context⟩ :: s.log := rfl
    have hown : Own n s (s.enter n k (.started context)) :=
      ⟨⟨[⟨n, k, .started context⟩], hlog, by simp⟩, fun _ => Or.inl rfl, rfl⟩
    refine ⟨hown, hinv.enter hlog rfl ⟨hs.idle rfl, hs.held⟩ ?_ ?_ ?_ ?_, fun _ _ => ?_⟩
    · simp [Disk.enter]
    · exact fun c f b hb => Or.inl hb
    · exact fun c b hevent => by cases hevent
    · exact fun c line hevent => by cases hevent
    · exact ⟨hown.grows.log _ hs.held, by simp, hP s _ hown.grows hs.known⟩
  | yes | count | bytes | text | code => simp [Host.system, effect] at heffect

/-- What `read_artifact` returns comes from the whole artifact. -/
def FromArtifact (h : Host) (request : Request) (sealed : Bytes) (s : Disk) : Prop :=
  ∃ artifact, s.artifacts request.contextSha256 = some artifact ∧
    h.envelope (.bytes artifact.json) request = some sealed

theorem lasting_fromArtifact (request : Request) (sealed : Bytes) : Lasting (FromArtifact h request sealed) := by
  rintro s s' hs ⟨artifact, hartifact, hsealed⟩
  obtain ⟨artifact', hartifact', hjson⟩ := hs.artifacts _ artifact hartifact
  exact ⟨artifact', hartifact', hjson ▸ hsealed⟩

theorem keeps_readArtifact (hP : Stable h.system (contract h) n P) (hs : P s) (web : Text) (request : Request) :
    Keeps h.system (contract h) n k (h.readArtifact web request)
      (fun sealed s => P s ∧ FromArtifact h request sealed s) s := by
  refine keeps_bind (keeps_quiet (quiet_readArtifact web _) hP hs fun s r raw hs hinv heffect hraw => ?_)
  cases r with
  | bytes raw' =>
    obtain rfl := Option.some.inj hraw
    refine keeps_ofOption fun sealed hsealed => ⟨hs, ?_⟩
    simp only [effect] at heffect
    split at heffect
    · next artifact hartifact =>
      rw [Option.ite_none_right_eq_some] at heffect
      have hinitial : raw' <+: artifact.json ++ [10] := heffect.1.1.trans (List.take_prefix _ _)
      obtain ⟨members, henveloped, -⟩ := envelope_eq_some.mp hsealed
      have hstrip := stripBytes_whole (hinv.artifacts _ artifact hartifact) hinitial henveloped.loaded
      exact ⟨artifact, hartifact, hstrip ▸ hsealed⟩
    · cases heffect
  | done | yes | count | text | code => cases hraw

theorem keeps_makeFolder {request : Request} {raw : Bytes}
    (hrequest : h.requestFromEnvironment k.request = some (request, raw)) (hcreate : k.operation = text "create") :
    Keeps h.system (contract h) n k (ask (.makeFolder request.contextSha256))
      (fun reserved s => reserved = true → Stage n k request.contextSha256 false (fun _ => True) s) s := by
  refine keeps_invoke (stable_const True) trivial fun s _ hinv r s' heffect => ?_
  cases r with
  | yes b =>
    simp only [Host.system, effect, Option.ite_none_right_eq_some, Option.some.injEq] at heffect
    obtain ⟨hb, heffect⟩ := heffect
    cases b with
    | false =>
      obtain rfl := heffect
      refine ⟨Own.refl n s, hinv, fun a ha htrue => ?_⟩
      obtain rfl := Option.some.inj ha
      cases htrue
    | true =>
      have habsent : request.contextSha256 ∉ s.folders := of_decide_eq_true hb.symm
      have hfree : ∀ e ∈ s.log, e.event ≠ .reserved request.contextSha256 :=
        fun e he hevent => habsent ((hinv.folders _).mpr ⟨e, he, hevent⟩)
      have hlog : s'.log = ⟨n, k, .reserved request.contextSha256⟩ :: s.log := heffect ▸ rfl
      have hfiles : s'.files = s.files := heffect ▸ rfl
      have hown : Own n s s' :=
        ⟨⟨[_], hlog, by simp⟩, fun _ => Or.inl (by rw [hfiles]), heffect ▸ rfl⟩
      refine ⟨hown, hinv.enter hlog (heffect ▸ rfl) ⟨hfree, hcreate, request, raw, hrequest, rfl⟩ ?_ ?_ ?_ ?_,
        fun _ _ _ => ⟨hlog ▸ List.mem_cons_self, fun _ e he hevent => ?_, trivial⟩⟩
      · intro context
        rw [← heffect]
        simp only [if_true, Disk.enter, List.mem_cons, Event.reserved.injEq]
        tauto
      · exact fun c f b hb => Or.inl (hfiles ▸ hb)
      · exact fun c b hevent => by cases hevent
      · exact fun c line hevent => by cases hevent
      · -- Nobody can have started the command of a context that nobody had reserved.
        rw [hlog] at he
        rcases List.mem_cons.mp he with rfl | he
        · cases hevent
        · obtain ⟨before, hbefore, hallowed⟩ := hinv.lawful.of_mem he
          simp only [Allowed, hevent] at hallowed
          exact hfree _ (hbefore.subset hallowed.2) rfl
  | done | count | bytes | text | code => simp [Host.system, effect] at heffect

/-- All that a line has to rest on before it is printed. -/
structure Ready (h : Host) (request : Request) (raw sealed : Bytes) (s : Disk) : Prop where
  artifact : FromArtifact h request sealed s
  stored : ∃ e ∈ s.log, e.event = .stored request.contextSha256 .request raw
  reserved : ∃ o ∈ s.log, o.event = .reserved request.contextSha256 ∧
    ∃ raw, h.requestFromEnvironment o.call.request = some (request, raw)

theorem lasting_ready (request : Request) (raw sealed : Bytes) : Lasting (Ready h request raw sealed) := by
  intro s s' hs hready
  obtain ⟨e, he, hstored⟩ := hready.stored
  obtain ⟨o, ho, hreserved⟩ := hready.reserved
  exact ⟨lasting_fromArtifact request sealed s s' hs hready.artifact, ⟨e, hs.log e he, hstored⟩,
    ⟨o, hs.log o ho, hreserved⟩⟩

theorem keeps_create {request : Request} {raw : Bytes}
    (hrequest : h.requestFromEnvironment k.request = some (request, raw)) (hcreate : k.operation = text "create")
    (web : Text) :
    Keeps h.system (contract h) n k (h.create request raw web) (fun sealed => Ready h request raw sealed) s := by
  have hfirst := lasting_const True
  have hstored : Lasting fun s => True ∧ ⟨n, k, .stored request.contextSha256 .request raw⟩ ∈ s.log :=
    hfirst.and (lasting_mem _)
  refine keeps_bind ((keeps_makeFolder hrequest hcreate).mono fun reserved s hreserved => ?_)
  refine keeps_bind (keeps_need fun htrue => ?_)
  refine keeps_bind ((keeps_writeNew hfirst (hreserved htrue) fun _ => ⟨request, hrequest⟩).mono fun _ s hs => ?_)
  refine keeps_bind (keeps_ofOption fun attempt _ => ?_)
  refine keeps_bind ((keeps_writeNew hstored hs (by simp)).mono fun _ s hs => ?_)
  have hattempt := hstored.and (lasting_mem ⟨n, k, .stored request.contextSha256 .attempt attempt⟩)
  refine keeps_bind ((keeps_openNew hattempt hs (by simp)).mono fun _ s hs => ?_)
  refine keeps_bind ((keeps_openNew hattempt hs.1 (by simp)).mono fun _ s hs => ?_)
  refine keeps_bind ((keeps_operatorAccess hattempt hs.1).mono fun _ s hs => ?_)
  refine keeps_bind (keeps_quiet (quiet_wait _) (Stage.stable hattempt) hs fun s r code hs _ _ _ => ?_)
  refine keeps_bind (keeps_ofOption fun exit _ => ?_)
  refine keeps_bind ((keeps_writeNew hattempt hs (by simp)).mono fun _ s hs => ?_)
  refine keeps_bind (keeps_need fun _ => ?_)
  have hexit := hattempt.and (lasting_mem ⟨n, k, .stored request.contextSha256 .exit exit⟩)
  refine keeps_bind (keeps_quiet (quiet_read _ _) (Stage.stable hexit) hs fun s r output hs _ _ _ => ?_)
  refine keeps_bind (keeps_need fun _ => keeps_bind (keeps_ofOption fun decoded _ => ?_))
  split
  · refine keeps_bind (keeps_ofOption fun sealed _ => ?_)
    refine keeps_bind ((keeps_readArtifact (Stage.stable hexit) hs web request).mono fun artifact s hs => ?_)
    refine keeps_bind (keeps_need fun hsame => ?_)
    subst hsame
    have hread := hexit.and (lasting_fromArtifact (h := h) request artifact)
    refine keeps_bind ((keeps_writeNew hread ⟨hs.1.held, hs.1.idle, hs.1.known, hs.2⟩ (by simp)).mono
      fun _ s hs => ?_)
    exact ⟨hs.known.1.2, ⟨_, hs.known.1.1.1.1.2, rfl⟩, ⟨_, hs.held, rfl, raw, hrequest⟩⟩
  · exact keeps_fail

theorem keeps_privatePath (hP : Stable h.system (contract h) n P) (hs : P s) (path : Path) :
    Keeps h.system (contract h) n k (privatePath path) (fun _ => P) s :=
  keeps_bind (keeps_quiet (quiet_privatePath path) hP hs fun _ _ _ hs _ _ _ => keeps_need fun _ => hs)

/-- Bytes that were found in `request.json` are the start of what the one who reserved it was given. -/
theorem Inv.reader (hinv : Inv h s) {request : Request} {raw : Bytes}
    (hrequest : h.requestFromEnvironment k.request = some (request, raw))
    (hfile : s.files request.contextSha256 .request = some raw) :
    (∃ e ∈ s.log, e.event = .stored request.contextSha256 .request raw) ∧
      ∃ o ∈ s.log, o.event = .reserved request.contextSha256 ∧
        ∃ raw, h.requestFromEnvironment o.call.request = some (request, raw) := by
  obtain ⟨e, he, hstored⟩ := hinv.files _ _ _ hfile
  obtain ⟨o, ho, hreserved, request', raw', hrequest', hinitial⟩ := hinv.requests e he _ _ hstored
  obtain rfl := request_initial hrequest hrequest' hinitial
  exact ⟨⟨e, he, hstored⟩, o, ho, hreserved, raw', hrequest'⟩

theorem keeps_readback {request : Request} {raw : Bytes}
    (hrequest : h.requestFromEnvironment k.request = some (request, raw)) (web : Text) :
    Keeps h.system (contract h) n k (h.readback request raw web) (fun sealed => Ready h request raw sealed) s := by
  let Found (s : Disk) : Prop := (∃ e ∈ s.log, e.event = .stored request.contextSha256 .request raw) ∧
    ∃ o ∈ s.log, o.event = .reserved request.contextSha256 ∧
      ∃ raw, h.requestFromEnvironment o.call.request = some (request, raw)
  have hfound : Lasting Found := by
    rintro s s' hs ⟨⟨e, he, hstored⟩, o, ho, hreserved⟩
    exact ⟨⟨e, hs.log e he, hstored⟩, o, hs.log o ho, hreserved⟩
  have hnothing := stable_const (S := h.system) (C := contract h) (n := n) True
  refine keeps_bind ((keeps_privatePath hnothing trivial _).mono fun _ s _ => ?_)
  refine keeps_bind ((keeps_privatePath hnothing trivial _).mono fun _ s _ => ?_)
  refine keeps_bind (keeps_quiet (quiet_read _ _) hnothing trivial fun s r stored _ hinv heffect hstored => ?_)
  refine keeps_bind (keeps_need fun hsame => ?_)
  subst hsame
  have hfile : s.files request.contextSha256 .request = some stored := by
    cases r with
    | bytes content =>
      obtain rfl := Option.some.inj hstored
      simpa [effect] using heffect
    | done | yes | count | text | code => cases hstored
  have hs : Found s := hinv.reader hrequest hfile
  refine keeps_bind ((keeps_privatePath hfound.stable hs _).mono fun _ s hs => ?_)
  refine keeps_bind (keeps_quiet (quiet_exists _ _) hfound.stable hs fun s r attempted hs _ _ _ => ?_)
  refine keeps_bind (keeps_need fun _ => ?_)
  refine keeps_bind ((keeps_readArtifact hfound.stable hs web request).mono fun sealed s hs => ?_)
  have hready : Ready h request stored sealed s := ⟨hs.2, hs.1.1, hs.1.2⟩
  have hlasting := lasting_ready (h := h) request stored sealed
  refine keeps_bind (keeps_quiet (quiet_exists _ _) hlasting.stable hready fun s r delivered hready _ _ _ => ?_)
  split_ifs
  · refine keeps_bind ((keeps_privatePath hlasting.stable hready _).mono fun _ s hready => ?_)
    refine keeps_bind (keeps_quiet (quiet_read _ _) hlasting.stable hready fun s r before hready _ _ _ => ?_)
    exact keeps_bind (keeps_need fun _ => hready)
  · exact hready

theorem keeps_print {request : Request} {raw sealed : Bytes} {printed : Text}
    (hrequest : h.requestFromEnvironment k.request = some (request, raw)) (hprinted : decodeAscii sealed = some printed)
    (hs : Ready h request raw sealed s) :
    Keeps h.system (contract h) n k (done (.print request.contextSha256 (marker ++ printed)))
      (fun _ _ => True) s := by
  refine keeps_invoke (lasting_ready request raw sealed).stable hs fun s hs hinv r s' heffect => ?_
  cases r with
  | done =>
    obtain rfl := Option.some.inj heffect
    obtain ⟨artifact, hartifact, hsealed⟩ := hs.artifact
    obtain ⟨o, ho, hreserved, raw', ho'⟩ := hs.reserved
    refine ⟨⟨⟨[_], rfl, by simp⟩, fun _ => Or.inl rfl, rfl⟩, hinv.enter rfl rfl ?_ ?_ ?_ ?_ ?_, fun _ _ => trivial⟩
    · exact ⟨request, raw, hrequest, rfl, hs.stored⟩
    · simp [Disk.enter]
    · exact fun c f b hb => Or.inl hb
    · exact fun c b hevent => by cases hevent
    · intro c line hevent
      obtain ⟨rfl, rfl⟩ := Event.printed.inj hevent
      exact ⟨artifact, o, request, raw', sealed, printed, hartifact, ho, hreserved, ho', hsealed, hprinted, rfl⟩
  | yes | count | bytes | text | code => simp [Host.system, effect] at heffect

theorem quiet_attestMetadata (binding : Members) : Quiet (.attestMetadata binding) := by
  intro n k r s s' heffect
  cases r <;> simp only [effect, reduceCtorEq, Option.some.injEq] at heffect
  exact heffect.symm

theorem quiet_attestRuntime (request : Request) : Quiet (.attestRuntime request) := by
  intro n k r s s' heffect
  cases r <;> simp only [effect, reduceCtorEq, Option.some.injEq] at heffect
  exact heffect.symm

theorem quiet_storeExists : Quiet .storeExists := by
  intro n k r s s' heffect
  cases r <;> simp only [effect, reduceCtorEq, Option.ite_none_right_eq_some, Option.some.injEq] at heffect
  exact heffect.2.symm

theorem keeps_makeStore : Keeps h.system (contract h) n k makeStore (fun _ _ => True) s := by
  refine keeps_bind (keeps_quiet quiet_storeExists (stable_const True) trivial fun s _ found _ _ _ _ => ?_)
  split_ifs
  · trivial
  · refine keeps_bind (keeps_invoke (stable_const True) trivial fun s _ hinv r s' heffect => ?_)
    cases r with
    | yes b =>
      simp only [Host.system, effect, Option.ite_none_right_eq_some, Option.some.injEq] at heffect
      obtain ⟨-, rfl⟩ := heffect
      exact ⟨⟨⟨[], rfl, by simp⟩, fun _ => Or.inl rfl, rfl⟩,
        ⟨hinv.lawful, hinv.folders, hinv.files, hinv.requests, hinv.artifacts, hinv.printed⟩, fun _ _ => trivial⟩
    | done | count | bytes | text | code => simp [Host.system, effect] at heffect

theorem keeps_operate {request : Request} {raw : Bytes}
    (hrequest : h.requestFromEnvironment k.request = some (request, raw)) (web : Text) :
    Keeps h.system (contract h) n k (h.operate k.operation request raw web)
      (fun sealed => Ready h request raw sealed) s := by
  unfold Host.operate
  split_ifs with hcreate
  · exact keeps_create hrequest hcreate web
  · exact keeps_readback hrequest web

theorem keeps_run : Keeps h.system (contract h) n k (h.run k) (fun _ _ => True) s := by
  have hnothing := stable_const (S := h.system) (C := contract h) (n := n) True
  refine keeps_bind (keeps_need fun _ => keeps_bind (keeps_ofOption fun accepted hrequest => ?_))
  obtain ⟨request, raw⟩ := accepted
  refine keeps_bind (keeps_need fun hoperation => ?_)
  refine keeps_bind (keeps_quiet (quiet_attestMetadata _) hnothing trivial fun s _ _ _ _ _ _ => ?_)
  refine keeps_bind (keeps_quiet (quiet_attestRuntime _) hnothing trivial fun s _ web _ _ _ _ => ?_)
  refine keeps_bind (keeps_makeStore.mono fun _ s _ => ?_)
  refine keeps_bind ((keeps_privatePath hnothing trivial _).mono fun _ s _ => ?_)
  refine keeps_bind ((keeps_operate hrequest web).mono fun sealed s hs => ?_)
  exact keeps_bind (keeps_ofOption fun printed hprinted => keeps_print hrequest hprinted hs)

end Calls

theorem sound (h : Host) : Sound h.system (contract h) (fun _ _ => True) .empty where
  start_inv := ⟨trivial, by simp [Disk.empty], by simp [Disk.empty], by simp [Disk.empty], by simp [Disk.empty],
    by simp [Disk.empty]⟩
  start_fresh _ := trivial
  disturb_inv p s s' hs hp := Inv.progress hs hp
  fresh_stable _ := stable_const True
  program n k s _ _ := keeps_run

/-- Whatever calls of `run` are made and wherever they stop: the command of a context is started at
most once, by the one `create` that reserved the context, and all lines printed for it are the same
envelope, checked for that call's request, each behind a `request.json` with the caller's bytes. -/
theorem setup_once (h : Host) (actions : List (Action Reply Call Progress)) :
    let log := (h.system.after .empty actions).state.log
    (∀ context, log.countP (fun e => e.event = .started context) ≤ 1) ∧
    (∀ e ∈ log, ∀ context, e.event = .started context →
      e.call.operation = text "create" ∧ Asks h e.call context) ∧
    (∀ context, log.countP (fun e => e.event = .reserved context) ≤ 1) ∧
    (∀ e ∈ log, ∀ e' ∈ log, ∀ context line line', e.event = .printed context line →
      e'.event = .printed context line' → line = line') ∧
    (∀ later e earlier context line, log = later ++ e :: earlier → e.event = .printed context line →
      (∃ request raw, h.requestFromEnvironment e.call.request = some (request, raw) ∧
        request.contextSha256 = context ∧ ∃ e' ∈ earlier, e'.event = .stored context .request raw) ∧
      ∃ o ∈ log, o.event = .reserved context ∧ ∃ request raw sealed printed,
        h.requestFromEnvironment o.call.request = some (request, raw) ∧ request.contextSha256 = context ∧
          h.envelope (.bytes sealed) request = some sealed ∧ decodeAscii sealed = some printed ∧
          line = marker ++ printed) := by
  intro log
  have hinv : Inv h (h.system.after .empty actions).state := (System.after_good (sound h) actions).inv
  refine ⟨fun context => ?_, fun e he context hevent => ?_, fun context => ?_, ?_, ?_⟩
  · refine hinv.lawful.count_le_one fun e before hallowed he e' he' => ?_
    have hevent : e.event = .started context := by simpa using he
    simp only [Allowed, hevent] at hallowed
    simpa using hallowed.1 e' he'
  · obtain ⟨before, hbefore, hallowed⟩ := hinv.lawful.of_mem he
    simp only [Allowed, hevent] at hallowed
    obtain ⟨before', -, hreserved⟩ := hinv.lawful.of_mem (hbefore.subset hallowed.2)
    exact hreserved.2
  · refine hinv.lawful.count_le_one fun e before hallowed he e' he' => ?_
    have hevent : e.event = .reserved context := by simpa using he
    simp only [Allowed, hevent] at hallowed
    simpa using hallowed.1 e' he'
  · intro e he e' he' context line line' hevent hevent'
    obtain ⟨a, o, request, raw, sealed, printed, ha, ho, hreserved, hrequest, hsealed, hprinted, rfl⟩ :=
      hinv.printed e he context line hevent
    obtain ⟨a', o', request', raw', sealed', printed', ha', ho', hreserved', hrequest', hsealed', hprinted', rfl⟩ :=
      hinv.printed e' he' context line' hevent'
    obtain rfl := hinv.reserved_unique ho ho' hreserved hreserved'
    obtain rfl := Option.some.inj (ha.symm.trans ha')
    obtain ⟨rfl, rfl⟩ := Prod.mk.inj (Option.some.inj (hrequest.symm.trans hrequest'))
    obtain rfl := Option.some.inj (hsealed.symm.trans hsealed')
    obtain rfl := Option.some.inj (hprinted.symm.trans hprinted')
    rfl
  · intro later e earlier context line hlog hevent
    have hlawful : Lawful (Allowed h) log := hinv.lawful
    rw [hlog] at hlawful
    have hallowed : Allowed h e earlier := hlawful.entry
    simp only [Allowed, hevent] at hallowed
    refine ⟨hallowed, ?_⟩
    have he : e ∈ log := hlog ▸ List.mem_append_right _ List.mem_cons_self
    obtain ⟨a, o, request, raw, sealed, printed, -, ho, hreserved, hrequest, hsealed, hprinted, hline⟩ :=
      hinv.printed e he context line hevent
    obtain ⟨members, contextMembers, binding, hparsed⟩ := requestFromEnvironment_eq_some.mp hrequest
    obtain ⟨before, -, hreserver⟩ := hinv.lawful.of_mem ho
    simp only [Allowed, hreserved] at hreserver
    obtain ⟨-, -, request', raw', hrequest', hcontext⟩ := hreserver
    obtain ⟨rfl, -⟩ := Prod.mk.inj (Option.some.inj (hrequest.symm.trans hrequest'))
    exact ⟨o, ho, hreserved, request, raw, sealed, printed, hrequest, hcontext, envelope_again hparsed.formal hsealed,
      hprinted, hline⟩

end Setup

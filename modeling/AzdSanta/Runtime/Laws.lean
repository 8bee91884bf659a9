import AzdSanta.Runtime.Service

/-! What the trail of the supervisor has to obey: which containers it may start and stop, in what
order, and how it cleans up. -/
namespace Runtime
open Python Processes

abbrev Trail := Processes.Trail Op Reply

abbrev Anchor := List (Text × Text)

section Kinds

/-- Calls that only read, and their bookkeeping. -/
def Op.reads : Op → Bool
  | .enter _ | .poll | .record => true
  | .run (.ps _) | .run (.inspect _) | .run (.composeConfig _) | .run (.imageInspect _) => true
  | _ => false

/-- Calls that may always be made. -/
def Op.free : Op → Bool
  | .run (.start _) | .run (.stop _ _) | .run (.composeRun _ _) | .mark _ => false
  | _ => true

/-- Everything but what `start` itself marks. -/
def Op.quiet : Op → Bool
  | .mark (.passed _) | .mark (.accepted _) => false
  | _ => true

theorem Op.reads.free {op : Op} (h : op.reads = true) : op.free = true := by
  cases op with
  | run c => cases c <;> simp_all [Op.reads, Op.free]
  | _ => simp_all [Op.reads, Op.free]

theorem Op.free.quiet {op : Op} (h : op.free = true) : op.quiet = true := by
  cases op with
  | mark m => simp [Op.free] at h
  | _ => rfl

def Op.stage : Op → Option Stage
  | .mark (.passed s) => some s
  | _ => none

/-- The stages passed so far, the last one in front. -/
def stages (log : Trail) : List Stage := log.filterMap fun e => e.1.stage

/-- What has happened since the last stage was passed. -/
def sinceStage (log : Trail) : Trail := log.takeWhile fun e => e.1.stage.isNone

theorem Op.quiet.stage {op : Op} (h : op.quiet = true) : op.stage = none := by
  cases op with
  | mark m => cases m <;> simp_all [Op.quiet, Op.stage]
  | _ => rfl

theorem stages_grown {log log' : Trail} (h : Grown Op.quiet log log') : stages log' = stages log := by
  obtain ⟨added, rfl, hadded⟩ := h
  have hnone : added.filterMap (fun e => e.1.stage) = [] :=
    List.filterMap_eq_nil_iff.mpr fun e he => Op.quiet.stage (hadded e he)
  simp [stages, hnone]

theorem mem_sinceStage_added {added log : Trail} (hadded : ∀ e ∈ added, e.1.quiet = true) {e : Op × Reply}
    (he : e ∈ added) : e ∈ sinceStage (added ++ log) := by
  have hstage : ∀ e ∈ added, e.1.stage.isNone = true := fun e he => by simp [Op.quiet.stage (hadded e he)]
  rw [sinceStage, List.takeWhile_append_of_pos hstage]
  exact List.mem_append_left _ he

theorem mem_sinceStage_grown {log log' : Trail} (h : Grown Op.quiet log log') {e : Op × Reply}
    (he : e ∈ sinceStage log) : e ∈ sinceStage log' := by
  obtain ⟨added, rfl, hadded⟩ := h
  have hstage : ∀ e ∈ added, e.1.stage.isNone = true := fun e he => by simp [Op.quiet.stage (hadded e he)]
  rw [sinceStage, List.takeWhile_append_of_pos hstage]
  exact List.mem_append_right _ he

end Kinds

section Laws
variable (b : Binding)

/-- A container that passed the checks of `inspect`, with its service and its id. -/
def Binding.Checked (rendered row : Json) (member : Text × Text) : Prop :=
  ∃ running before image, b.serviceName row before = some member.1 ∧
    b.checkRow member.1 running row image rendered = some () ∧ row.item "Id" = some (.str member.2)

/-- `inspect` has looked at the seven containers and found them as they have to be. -/
def Binding.Inspected (selected : List (Text × Text)) (log : Trail) : Prop :=
  ∃ recent ids stdout rows rendered rest,
    log = recent ++ (.run (.inspect ids), .outcome (.result 0 stdout)) :: rest ∧ (∀ e ∈ recent, e.1.reads = true) ∧
    b.loads stdout = some (.arr rows) ∧ rows.length = 7 ∧ (∀ id, id ∈ ids ↔ id ∈ selected.map Prod.snd) ∧
    List.Forall₂ (b.Checked rendered) rows selected

/-- `container_generation` has read the persisted anchor and accepted it: seven different ids. -/
def Binding.Accepted (anchor : Anchor) (log : Trail) : Prop :=
  (∃ raw value selected, (.readGeneration, .bytes raw) ∈ log ∧ (.mark (.inspected selected), .done) ∈ log ∧
    b.reader.loadsBytes raw = .ok value ∧ b.generation value selected = some anchor) ∧
  anchor.length = 7 ∧ (anchor.map Prod.snd).Nodup

def helperName (hex : Text) : Text := text "santa-runtime-check-" ++ hex

/-- The helper of this id was named by this run and looked at under its name. -/
def Binding.Helped (id : Text) (log : Trail) : Prop :=
  ∃ hex stdout row, (.uuid, .text hex) ∈ log ∧
    (.run (.inspect [helperName hex]), .outcome (.result 0 stdout)) ∈ log ∧
    b.loads stdout = some (.arr [row]) ∧ b.ownsHelper (helperName hex) row = some id

/-- Which containers may be started and stopped. -/
def Binding.Authority : Op × Reply → Trail → Prop
  | (.run (.start ids), _), log => ∃ anchor, b.Accepted anchor log ∧ ∀ id ∈ ids, id ∈ anchor.map Prod.snd
  | (.run (.stop _ ids), _), log => ∃ anchor, b.Accepted anchor log ∧
      ((∀ id ∈ ids, id ∈ anchor.map Prod.snd) ∨ ∃ id, ids = [id] ∧ b.Helped id log)
  | (.run (.composeRun _ _), _), log => ∃ anchor, b.Accepted anchor log
  | _, _ => True

/-- A container of these services was named to a Docker command, which succeeded. -/
def Acted (command : List Text → Command) (names : List Text) (log : Trail) : Prop :=
  ∃ selected ids stdout, pick selected names = some ids ∧
    (.run (command ids), .outcome (.result 0 stdout)) ∈ sinceStage log ∧ (.mark (.inspected selected), .done) ∈ log

/-- The volume of this name is there. -/
def Binding.Mounted (name : Text) (log : Trail) : Prop :=
  ∃ stdout, (.run (.volumeInspect (b.project ++ text "_" ++ name)), .outcome (.result 0 stdout)) ∈ sinceStage log

/-- What it takes to pass a stage, all of it since the last one. -/
def Binding.Evidence : Stage → Trail → Prop
  | .admissionClosed, log => Acted (.stop 30) apps log
  | .backingData, log => (∀ name ∈ b.volumes, b.Mounted name log) ∧ (.check "sentinels", .yes true) ∈ sinceStage log
  | .dependencies, log => Acted .start dependencies log
  | .task t, log => ∃ name stdout, (.run (.composeRun name t), .outcome (.result 0 stdout)) ∈ sinceStage log
  | .workers, log => Acted .start [text "workers", text "celery"] log
  | .consumers, log => ∃ stdout, (.run .listQueues, .outcome (.result 0 stdout)) ∈ sinceStage log ∧
      b.consumersReady stdout = some true

/-- The stages before the listener, the last one in front. -/
def startup : List Stage := [.consumers, .workers, .task .search, .task .admission, .task .securityStore,
  .task .schema, .dependencies, .backingData, .admissionClosed]

/-- The manifest and then the seven containers have just been found right, the flag not set. -/
def Revalidated (selected : List (Text × Text)) (log : Trail) : Prop :=
  ∃ label between rest, log = (.enter label, .yes false) :: (.mark (.inspected selected), .done) ::
    (between ++ (.mark .manifest, .done) :: rest) ∧ ∀ e ∈ between, e.1.reads = true

/-- What the end of `stop` has done for these ids: the listing failed, or exactly those it shows were
stopped and nothing was run after that. -/
def Cleaned (authorized : List Text) (log : Trail) : Prop :=
  (.mark .unlisted, .done) ∈ log ∨
  ∃ current, (.mark (.listed current), .done) ∈ log ∧
    (authorized.filter (· ∈ current) = [] ∨
    ∃ later stopping r rest, (∀ e ∈ later, e.1 = .record) ∧
      log = later ++ (.run (.stop 30 (authorized.filter (· ∈ current))), r) :: (.enter "stop", .yes stopping) ::
        (.mark (.listed current), .done) :: rest)

/-- The order of a run and what its marks mean. -/
def Binding.Order : Op × Reply → Trail → Prop
  | (.run (.start ids), _), log => ∃ selected names, Revalidated selected log ∧ pick selected names = some ids ∧
      ∀ id ∈ ids, selected.lookup (text "web") = some id → stages log = startup
  | (.run (.composeRun _ _), _), log => ∃ label rest, log = (.enter label, .yes false) :: rest
  | (.mark .manifest, _), log => ∃ rest, log = (.loadManifest, .yes true) :: rest
  | (.mark (.inspected selected), _), log => b.Inspected selected log
  | (.mark (.accepted anchor), _), log => b.Accepted anchor log
  | (.mark (.passed s), _), log => b.Evidence s log
  | (.mark (.listed current), _), log => ∃ stdout stopping rest, current = splitWords stdout ∧
      log = (.record, .yes true) :: (.run .psAll, .outcome (.result 0 stdout)) :: (.enter "cleanup-selection", stopping) ::
        rest
  | (.mark .unlisted, _), log => ∃ recent outcome stopping rest,
      log = recent ++ (.run .psAll, .outcome outcome) :: (.enter "cleanup-selection", stopping) :: rest ∧
      (∀ e ∈ recent, e.1 = .record) ∧ ∀ stdout, outcome = .result 0 stdout → (.record, .yes false) ∈ recent
  | (.mark .left, _), log => ∀ anchor, (.mark (.accepted anchor), .done) ∈ log → Cleaned (anchor.map Prod.snd) log
  | _, _ => True

def Binding.Allowed (e : Op × Reply) (log : Trail) : Prop := b.Authority e log ∧ b.Order e log

theorem Op.free.allowed {op : Op} (h : op.free = true) (r : Reply) (log : Trail) : b.Allowed (op, r) log := by
  cases op with
  | mark m => simp [Op.free] at h
  | run c => cases c <;> simp_all [Op.free, Binding.Allowed, Binding.Authority, Binding.Order]
  | _ => exact ⟨trivial, trivial⟩

end Laws

section Known
variable (b : Binding)

/-- What holds before `container_generation` has accepted. -/
structure Unbound (t : State) (log : Trail) : Prop where
  cleanup : t.cleanupIds = []
  helpers : t.helpers = []
  open_ : ∀ anchor r, (.mark (.accepted anchor), r) ∉ log

/-- What holds from then on. -/
structure Binding.Bound (anchor : Anchor) (t : State) (log : Trail) : Prop where
  accepted : b.Accepted anchor log
  only : ∀ other r, (.mark (.accepted other), r) ∈ log → other = anchor
  cleanup : t.cleanupIds = anchor.map Prod.snd
  nodup : t.ids.Nodup
  seven : t.ids.length = 7
  ids : ∀ id, id ∈ t.ids ↔ id ∈ anchor.map Prod.snd
  helpers : ∀ name ∈ t.helpers, ∃ hex, (.uuid, .text hex) ∈ log ∧ name = helperName hex

def Binding.Known : Option Anchor → State → Trail → Prop
  | none => Unbound
  | some anchor => b.Bound anchor

variable {b} {a : Option Anchor} {t : State} {log log' : Trail}

theorem Binding.Accepted.grown {kind : Op → Bool} {anchor : Anchor} (h : b.Accepted anchor log)
    (hgrown : Grown kind log log') : b.Accepted anchor log' := by
  obtain ⟨⟨raw, value, selected, hread, hinspected, h⟩, hseven⟩ := h
  exact ⟨⟨raw, value, selected, hgrown.mem hread, hgrown.mem hinspected, h⟩, hseven⟩

theorem Binding.Known.grown (h : b.Known a t log) (hgrown : Grown Op.quiet log log') : b.Known a t log' := by
  cases a with
  | none =>
    obtain ⟨hcleanup, hhelpers, hopen⟩ := h
    exact ⟨hcleanup, hhelpers, fun anchor r hmem => hopen anchor r ((hgrown.mem_iff rfl).mp hmem)⟩
  | some anchor =>
    refine { h with accepted := h.accepted.grown hgrown, only := fun other r hmem => ?_, helpers := fun name hname => ?_ }
    · exact h.only other r ((hgrown.mem_iff rfl).mp hmem)
    · obtain ⟨hex, hmem, hname⟩ := h.helpers name hname
      exact ⟨hex, hgrown.mem hmem, hname⟩

theorem Binding.Known.cons (h : b.Known a t log) {e : Op × Reply} (he : e.1.quiet = true) : b.Known a t (e :: log) :=
  h.grown (Grown.refl.cons he)

/-- The fields that nothing depends on. -/
theorem Binding.Known.noted (h : b.Known a t log) (images : Members) (rendered : Option Json) :
    b.Known a { t with images := images, rendered := rendered } log := by
  cases a with
  | none => exact ⟨h.cleanup, h.helpers, h.open_⟩
  | some anchor => exact ⟨h.accepted, h.only, h.cleanup, h.nodup, h.seven, h.ids, h.helpers⟩

end Known

end Runtime

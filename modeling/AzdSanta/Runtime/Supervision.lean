import AzdSanta.Runtime.Inspection

/-! Every run of the supervisor obeys the laws: what it starts and stops is of the accepted anchor or
its own helper, in order, and it cleans up. -/
namespace Runtime
open Python Processes

variable {b : Binding} {a : Option Anchor} {anchor : Anchor} {t : State} {log log' : Trail}

section Evidence

theorem quiet_of_reads (op : Op) (h : op.reads = true) : op.quiet = true := Op.free.quiet (Op.reads.free h)

theorem mem_sinceStage_run {recent rest : Trail} {e : Op × Reply} (hrecent : ∀ e ∈ recent, e.1.reads = true)
    (he : e.1.quiet = true) : e ∈ sinceStage (recent ++ e :: rest) := by
  have hquiet : ∀ e' ∈ recent ++ [e], e'.1.quiet = true := by
    intro e' he'
    rcases List.mem_append.mp he' with he' | he'
    · exact Op.free.quiet (Op.reads.free (hrecent e' he'))
    · rw [List.mem_singleton.mp he']
      exact he
  rw [List.append_cons]
  exact mem_sinceStage_added hquiet (by simp)

theorem mem_of_lookup {selected : List (Text × Text)} {name id : Text} (h : selected.lookup name = some id) :
    (name, id) ∈ selected := by
  obtain ⟨before, after, rfl, -⟩ := List.lookup_eq_some_iff.mp h
  simp

theorem pick_mem {selected : List (Text × Text)} {names ids : List Text} (h : pick selected names = some ids)
    {id : Text} (hid : id ∈ ids) : ∃ name ∈ names, (name, id) ∈ selected := by
  induction names generalizing ids with
  | nil =>
    obtain rfl : [] = ids := Option.some.inj h
    cases hid
  | cons name names ih =>
    rw [pick, List.mapM_cons] at h
    simp only [Option.bind_eq_bind, Option.bind_eq_some_iff, Option.pure_def, Option.some.injEq] at h
    obtain ⟨found, hfound, rest, hrest, rfl⟩ := h
    rcases List.mem_cons.mp hid with rfl | hid
    · exact ⟨name, List.mem_cons_self, mem_of_lookup hfound⟩
    · obtain ⟨name', hname', hmem⟩ := ih hrest hid
      exact ⟨name', List.mem_cons_of_mem _ hname', hmem⟩

end Evidence

section Starts

/-- The selection right before a start consists of the anchor's containers, each with one service. -/
theorem start_allowed {label : String} {selected : List (Text × Text)} {between rest : Trail}
    (hk : b.Known (some anchor) t ((.mark (.inspected selected), .done) :: (between ++ (.mark .manifest, .done) :: rest)))
    (hids : t.ids = selected.map Prod.snd) (hbetween : ∀ e ∈ between, e.1.reads = true) {names ids : List Text}
    (hpick : pick selected names = some ids)
    (hweb : text "web" ∈ names → stages (between ++ (.mark .manifest, .done) :: rest) = startup) (r : Reply) :
    b.Allowed (.run (.start ids), r) ((.enter label, .yes false) :: (.mark (.inspected selected), .done) ::
      (between ++ (.mark .manifest, .done) :: rest)) := by
  have hnodup := hk.nodup
  rw [hids] at hnodup
  have hk' := hk.cons (e := (.enter label, .yes false)) rfl
  refine ⟨⟨anchor, hk'.accepted, fun id hid => ?_⟩, selected, names, ⟨label, between, rest, rfl, hbetween⟩, hpick,
    fun id hid hlookup => ?_⟩
  · obtain ⟨name, -, hmem⟩ := pick_mem hpick hid
    rw [← hk.ids, hids]
    exact List.mem_map_of_mem hmem
  · obtain ⟨name, hname, hmem⟩ := pick_mem hpick hid
    have hsame : (name, id) = (text "web", id) := List.inj_on_of_nodup_map hnodup hmem (mem_of_lookup hlookup) rfl
    obtain ⟨rfl, -⟩ := Prod.mk.inj hsame
    exact hweb hname

theorem startIds_keeps (hk : b.Known (some anchor) t log) (label : String) {names : List Text}
    (hweb : text "web" ∈ names → stages log = startup) :
    Meets b.Allowed (b.startIds label names) (Keeping (b.Known (some anchor)) Op.quiet log fun _ _ log' =>
      Acted .start names log') t log := by
  refine keeping_bind (ensureRunning_keeps hk rfl) ?_
  rintro _ _ _ hk₁ hgrown₁ ⟨rfl, rfl⟩
  refine keeping_bind (loadManifest_keeps hk₁) ?_
  rintro _ _ _ hk₂ hgrown₂ ⟨rfl, rfl⟩
  refine keeping_bind (inspect_keeps hk₂ false true) ?_
  rintro selected t₃ _ hk₃ hgrown₃ ⟨hids, -, between, rfl, hbetween⟩
  refine keeping_ofOption_bind hk₃ fun ids hpick => ?_
  have hstages := stages_grown (hgrown₁.trans (hgrown₂.trans hgrown₃))
  refine keeping_bind (call_keeps hk₃ (fun stopping r hstopping => ?_) rfl quiet_of_reads fun _ h => h) ?_
  · obtain rfl := hstopping rfl
    exact start_allowed hk₃ hids hbetween hpick (fun h => (hstages.trans (hweb h) :)) r
  · rintro ⟨code, stdout⟩ _ _ hk₄ hgrown₄ ⟨rfl, hcode, recent, stopping, hrecent, rfl⟩
    obtain rfl : code = 0 := by simpa using hcode
    refine keeping_pure hk₄ ⟨selected, ids, stdout, hpick, mem_sinceStage_run hrecent rfl, ?_⟩
    exact hgrown₄.mem List.mem_cons_self

end Starts

section Helpers

theorem Binding.Known.drop (hk : b.Known a t log) (helpers : List Text) (h : helpers ⊆ t.helpers) :
    b.Known a { t with helpers := helpers } log := by
  cases a with
  | none => exact ⟨hk.cleanup, by simpa [hk.helpers] using h, hk.open_⟩
  | some anchor =>
    exact ⟨hk.accepted, hk.only, hk.cleanup, hk.nodup, hk.seven, hk.ids, fun name hname => hk.helpers name (h hname)⟩

/-- A call that may always be made. -/
theorem call_quiet {label : String} {c : Command} {o : Options} (hk : b.Known a t log) (hc : (Op.run c).free = true) :
    Meets b.Allowed (call label c o) (Keeping (b.Known a) Op.quiet log fun v t' log' => t' = t ∧
      (v.1 = 0 ∨ o.allowedFailure = true) ∧ ∃ recent stopping, (∀ e ∈ recent, e.1.reads = true) ∧
        log' = recent ++ (.run c, .outcome (.result v.1 v.2)) :: (.enter label, .yes stopping) :: log) t log :=
  call_keeps hk (fun _ r _ => Op.free.allowed b hc r _) (Op.free.quiet hc) quiet_of_reads fun _ h => h

theorem stopHelper_keeps (hk : b.Known (some anchor) t log) {hex : Text} (hhex : (.uuid, .text hex) ∈ log) :
    Meets b.Allowed (b.stopHelper (helperName hex)) (Keeping (b.Known (some anchor)) Op.quiet log fun _ _ _ => True)
      t log := by
  refine keeping_bind (call_quiet hk rfl) ?_
  rintro ⟨code, stdout⟩ _ log₁ hk₁ hgrown₁ ⟨rfl, -, recent, stopping, hrecent, rfl⟩
  dsimp only
  split_ifs with hcode
  · subst hcode
    refine keeping_ofOption_bind hk₁ fun value hvalue => ?_
    split
    case h_2 => exact keeping_throw hk₁
    case h_1 row =>
    refine keeping_ofOption_bind hk₁ fun id hid => ?_
    have hhelped : ∀ label stopping', b.Helped id ((.enter label, .yes stopping') :: _) := fun label stopping' =>
      ⟨hex, stdout, row, (hgrown₁.cons (e := (.enter label, .yes stopping')) rfl).mem hhex, by simp, hvalue, hid⟩
    refine keeping_bind (call_keeps hk₁ (fun stopping' r _ => ⟨⟨anchor, ?_, .inr ⟨id, rfl, hhelped _ _⟩⟩, trivial⟩)
      rfl quiet_of_reads fun _ h => h) ?_
    · exact (hk₁.cons (e := (.enter "helper-stop", .yes stopping')) rfl).accepted
    · rintro _ _ _ hk₂ - ⟨rfl, -⟩
      exact ⟨hk₂.drop _ List.erase_subset, .refl, fun _ _ => trivial⟩
  · refine keeping_bind (call_quiet hk₁ rfl) ?_
    rintro ⟨_, names⟩ _ log₂ hk₂ - ⟨rfl, -⟩
    refine keeping_need_bind hk₂ fun _ => ?_
    exact ⟨hk₂.drop _ List.erase_subset, .refl, fun _ _ => trivial⟩

/-- Before anything is accepted there are no helpers; later ones were all named by this run. -/
theorem stopHelpers_keeps (hk : b.Known a t log) :
    Meets b.Allowed b.stopHelpers (Keeping (b.Known a) Op.quiet log fun _ _ _ => True) t log := by
  refine keeping_get ?_
  cases a with
  | none =>
    rw [hk.helpers]
    exact keeping_pure hk trivial
  | some anchor =>
    have hloop := @keeping_forM _ _ Op.quiet _ _ _ b.Allowed _ _ _ b.stopHelper (fun _ _ => True)
      t.helpers (fun _ _ _ _ h => h) (fun name hname t' log' hgrown hk' => ?_) hk
    · exact Keeping.weaken hloop (fun _ h => h) fun _ _ _ _ _ => trivial
    · obtain ⟨hex, hhex, rfl⟩ := hk.helpers name hname
      exact stopHelper_keeps hk' (hgrown.mem hhex)

theorem Binding.Known.name (hk : b.Known (some anchor) t log) {hex : Text} (hhex : (.uuid, .text hex) ∈ log) :
    b.Known (some anchor) { t with helpers := helperName hex :: t.helpers } log := by
  refine ⟨hk.accepted, hk.only, hk.cleanup, hk.nodup, hk.seven, hk.ids, fun name hname => ?_⟩
  rcases List.mem_cons.mp hname with rfl | hname
  · exact ⟨hex, hhex, rfl⟩
  · exact hk.helpers name hname

/-- A helper ran its task, and its container is gone or was this run's. -/
theorem oneoff_keeps (hk : b.Known (some anchor) t log) (label : String) (task : Task) :
    Meets b.Allowed (b.oneoff label task) (Keeping (b.Known (some anchor)) Op.quiet log fun _ _ log' =>
      b.Evidence (.task task) log') t log := by
  refine keeping_bind (ensureRunning_keeps hk rfl) ?_
  rintro _ _ _ hk₁ - ⟨rfl, rfl⟩
  refine keeping_bind (loadManifest_keeps hk₁) ?_
  rintro _ _ _ hk₂ - ⟨rfl, rfl⟩
  refine keeping_bind (inspect_keeps hk₂ false true) ?_
  rintro selected t₃ log₃ hk₃ - -
  refine keeping_bind (@keeping_call _ _ _ Op.quiet _ _ _ _ _ _ (fun hex t log => t = t₃ ∧ log = (.uuid, .text hex) :: log₃) _ _
    (fun r => Op.free.allowed b rfl r _) (fun _ => hk₃.cons rfl) rfl fun r hex hr => ?_) ?_
  · cases r with
    | text t => exact ⟨rfl, by rw [Option.some.inj hr]⟩
    | _ => cases hr
  · rintro hex _ _ hk₄ - ⟨rfl, rfl⟩
    refine keeping_modify_bind ?_
    have hk₅ := @Binding.Known.name _ _ _ _ hk₄ hex List.mem_cons_self
    refine keeping_finally (Q := fun _ log' => b.Evidence (.task task) log') ?_
      (fun t' log' hk' => stopHelpers_keeps hk') fun _ log log' hgrown ⟨name, stdout, h⟩ =>
        ⟨name, stdout, mem_sinceStage_grown hgrown h⟩
    have hallowed : ∀ stopping r, ((false = false) → stopping = false) →
        b.Allowed (.run (.composeRun (helperName hex) task), r)
          ((.enter label, .yes stopping) :: (.uuid, .text hex) :: log₃) := by
      intro stopping r hstopping
      obtain rfl := hstopping rfl
      exact ⟨⟨anchor, (hk₄.cons (e := (.enter label, .yes false)) rfl).accepted⟩, label, _, rfl⟩
    refine keeping_bind (call_keeps hk₅ hallowed rfl quiet_of_reads fun _ h => h) ?_
    rintro ⟨code, stdout⟩ _ _ hk₆ - ⟨rfl, hcode, recent, stopping, hrecent, rfl⟩
    obtain rfl : code = 0 := by simpa using hcode
    exact keeping_pure hk₆ ⟨_, stdout, mem_sinceStage_run hrecent rfl⟩

end Helpers

section Waiting

theorem waitRounds_keeps {ready : RT Bool} {E : Trail → Prop}
    (hstable : ∀ log log', Grown Op.quiet log log' → E log → E log')
    (hready : ∀ t log, b.Known a t log →
      Meets b.Allowed ready (Keeping (b.Known a) Op.quiet log fun v _ log' => v = true → E log') t log)
    (n : ℕ) (hk : b.Known a t log) :
    Meets b.Allowed (waitRounds ready n) (Keeping (b.Known a) Op.quiet log fun _ _ log' => E log') t log := by
  induction n generalizing t log with
  | zero => exact keeping_throw hk
  | succ n ih =>
    refine keeping_bind (ensureRunning_keeps hk rfl) fun _ t₁ log₁ hk₁ _ _ => ?_
    refine keeping_bind (hready t₁ log₁ hk₁) fun v t₂ log₂ hk₂ _ hv => ?_
    refine keeping_bind (ensureRunning_keeps hk₂ rfl) fun _ t₃ log₃ hk₃ hgrown₃ _ => ?_
    cases v with
    | true => exact keeping_pure hk₃ (hstable _ _ hgrown₃ (hv rfl))
    | false => exact ih hk₃

theorem askCount_keeps {op : Op} (hk : b.Known a t log) (hop : op.free = true) :
    Meets b.Allowed (askCount op) (Keeping (b.Known a) Op.quiet log fun _ _ _ => True) t log :=
  keeping_call (fun r => Op.free.allowed b hop r _) (fun _ => hk.cons (Op.free.quiet hop)) (Op.free.quiet hop)
    fun _ _ _ => trivial

theorem wait_keeps {ready : RT Bool} {E : Trail → Prop}
    (hstable : ∀ log log', Grown Op.quiet log log' → E log → E log')
    (hready : ∀ t log, b.Known a t log →
      Meets b.Allowed ready (Keeping (b.Known a) Op.quiet log fun v _ log' => v = true → E log') t log)
    (hk : b.Known a t log) :
    Meets b.Allowed (wait ready) (Keeping (b.Known a) Op.quiet log fun _ _ log' => E log') t log :=
  keeping_bind (askCount_keeps hk rfl) fun n _ _ hk _ _ => waitRounds_keeps hstable hready (n + 1) hk

theorem databaseReady_keeps (hk : b.Known a t log) (database : Json) :
    Meets b.Allowed (do
      let user ← ofOption (database.item "POSTGRES_USER")
      let name ← ofOption (database.item "POSTGRES_DB")
      let (code, _) ← call "database" (.databaseReady user name) { allowedFailure := true }
      return decide (code = 0)) (Keeping (b.Known a) Op.quiet log fun _ _ _ => True) t log := by
  refine keeping_ofOption_bind hk fun user _ => ?_
  refine keeping_ofOption_bind hk fun name _ => ?_
  refine keeping_bind (call_quiet hk rfl) fun v t₁ log₁ hk₁ _ _ => ?_
  exact keeping_pure hk₁ trivial

theorem consumers_keep (hk : b.Known a t log) :
    Meets b.Allowed (do
      let (code, stdout) ← call "queues" .listQueues { allowedFailure := true }
      if code ≠ 0 then return false
      else ofOption (b.consumersReady stdout))
      (Keeping (b.Known a) Op.quiet log fun v _ log' => v = true → b.Evidence .consumers log') t log := by
  refine keeping_bind (call_quiet hk rfl) ?_
  rintro ⟨code, stdout⟩ _ _ hk₁ - ⟨rfl, -, recent, stopping, hrecent, rfl⟩
  dsimp only
  split_ifs with hcode
  · exact keeping_pure hk₁ (by simp)
  · obtain rfl : code = 0 := not_not.mp hcode
    refine keeping_ofOption hk₁ ?_
    rintro v hv rfl
    exact ⟨stdout, mem_sinceStage_run hrecent rfl, hv⟩

/-- The loop over the volumes, and the sentinels after it. -/
theorem backingData_keeps (hk : b.Known a t log) :
    Meets b.Allowed b.backingData (Keeping (b.Known a) Op.quiet log fun _ _ log' => b.Evidence .backingData log') t log := by
  refine keeping_bind (call_quiet hk rfl) fun v t₁ log₁ hk₁ _ _ => ?_
  refine keeping_bind (must_keeps hk₁ rfl rfl) fun _ t₂ log₂ hk₂ _ _ => ?_
  refine keeping_bind (keeping_forM (P := b.Mounted) ?_ ?_ hk₂) ?_
  · rintro name log log' hgrown ⟨stdout, h⟩
    exact ⟨stdout, mem_sinceStage_grown hgrown h⟩
  · intro name _ t₃ log₃ _ hk₃
    refine keeping_bind (call_quiet hk₃ rfl) ?_
    rintro ⟨code, stdout⟩ _ log₄ hk₄ - ⟨rfl, hcode, recent, stopping, hrecent, rfl⟩
    obtain rfl : code = 0 := by simpa using hcode
    refine keeping_ofOption_bind hk₄ fun value _ => ?_
    split
    · refine keeping_need_bind hk₄ fun _ => ?_
      refine Keeping.weaken (must_keeps hk₄ rfl rfl) (fun _ h => h) fun _ _ log₅ hgrown _ => ?_
      exact ⟨stdout, mem_sinceStage_grown hgrown (mem_sinceStage_run hrecent rfl)⟩
    · exact keeping_throw hk₄
  · intro _ t₃ log₃ hk₃ _ hmounted
    refine Keeping.weaken (must_keeps hk₃ rfl rfl) (fun _ h => h) fun _ _ log₄ hgrown ⟨_, hlog⟩ => ⟨fun name hname => ?_, ?_⟩
    · obtain ⟨stdout, h⟩ := hmounted name hname
      exact ⟨stdout, mem_sinceStage_grown hgrown h⟩
    · rw [hlog]
      exact @mem_sinceStage_run [] _ _ (by simp) rfl

end Waiting

section Start

@[simp] theorem stages_passed (s : Stage) (r : Reply) : stages ((.mark (.passed s), r) :: log) = s :: stages log := rfl

/-- However `start` ends, what is known holds. -/
def Binding.Settled (b : Binding) {α : Type} (_ : Except Error α) (t : State) (log : Trail) : Prop :=
  ∃ a, b.Known a t log

theorem settled_bind {α β : Type} {x : RT α} {f : α → RT β} {kind : Op → Bool} {P : α → State → Trail → Prop}
    (hx : Meets b.Allowed x (Keeping (b.Known a) kind log P) t log)
    (hf : ∀ v t' log', b.Known a t' log' → Grown kind log log' → P v t' log' → Meets b.Allowed (f v) b.Settled t' log') :
    Meets b.Allowed (x >>= f) b.Settled t log := by
  refine meets_bind (hx.mono fun r t' log' ⟨hk, hgrown, hP⟩ => ?_)
  cases r with
  | error e => exact ⟨a, hk⟩
  | ok v => exact hf v t' log' hk hgrown (hP v rfl)

/-- A stage is passed with its evidence. -/
theorem passed_bind {β : Type} {f : Unit → RT β} (s : Stage) (hk : b.Known (some anchor) t log)
    (hevidence : b.Evidence s log)
    (hf : b.Known (some anchor) t ((.mark (.passed s), .done) :: log) →
      Meets b.Allowed (f ()) b.Settled t ((.mark (.passed s), .done) :: log)) :
    Meets b.Allowed (done (.mark (.passed s)) >>= f) b.Settled t log := by
  refine meets_bind (meets_call fun r => ⟨⟨trivial, hevidence⟩, fun _ hr => ?_⟩)
  cases r with
  | done =>
    have hgrown : Grown (fun _ => true) log ((.mark (.passed s), .done) :: log) := Grown.refl.cons rfl
    refine hf { hk with accepted := hk.accepted.grown hgrown, only := fun other r hmem => ?_, helpers := fun name hname => ?_ }
    · exact hk.only other r (by simpa using hmem)
    · obtain ⟨hex, hmem, h⟩ := hk.helpers name hname
      exact ⟨hex, hgrown.mem hmem, h⟩
  | _ => cases hr

theorem generation_eq_some {value : Json} {selected : List (Text × Text)} (h : b.generation value selected = some anchor) :
    (anchor.map Prod.snd).dedup.length = 7 ∧ anchor.length = selected.length ∧
      ∀ m ∈ anchor, selected.lookup m.1 = some m.2 := by
  cases value with
  | obj members =>
    simp only [Binding.generation, Option.bind_eq_bind, Option.bind_eq_some_iff] at h
    obtain ⟨_, _, _, _, _, _, _, _, _, _, _, _, _, _, v, _, h⟩ := h
    split at h
    · simp only [Option.bind_eq_some_iff] at h
      obtain ⟨_, _, w, _, h⟩ := h
      split at h
      · simp only [Option.bind_eq_some_iff, Option.guard_eq_some', Option.pure_def, Option.some.injEq] at h
        obtain ⟨_, _, found, _, _, hseven, _, ⟨hlength, hall⟩, rfl⟩ := h
        exact ⟨hseven, hlength, fun m hm => by simpa using List.all_eq_true.mp hall m hm⟩
      · cases h
    · cases h
  | _ => cases h

/-- The ids of an accepted anchor are those of the selection, all different. -/
theorem generation_anchored {value : Json} {selected : List (Text × Text)} (h : b.generation value selected = some anchor)
    (hseven : selected.length = 7) : Anchored anchor (anchor.map Prod.snd) ∧ Anchored anchor (selected.map Prod.snd) := by
  obtain ⟨hdedup, hlength, hlookup⟩ := generation_eq_some h
  have hanchor : (anchor.map Prod.snd).length = 7 := by simp [hlength, hseven]
  have hnodup : (anchor.map Prod.snd).Nodup := by
    rw [← List.dedup_eq_self]
    exact (List.dedup_sublist _).eq_of_length (by rw [hdedup, hanchor])
  have hself : Anchored anchor (anchor.map Prod.snd) := ⟨hnodup, hanchor, fun _ => Iff.rfl⟩
  have hsub : anchor.map Prod.snd ⊆ selected.map Prod.snd := by
    intro id hid
    obtain ⟨m, hm, rfl⟩ := List.mem_map.mp hid
    exact List.mem_map_of_mem (mem_of_lookup (hlookup m hm))
  have hperm := (List.subperm_of_subset hnodup hsub).perm_of_length_le (by simp [hlength])
  exact ⟨hself, hperm.nodup_iff.mp hnodup, by simp [hseven], fun id => hperm.mem_iff.symm⟩

/-- The generation is refused, or from now on the anchor is known. -/
def Binding.Opened (b : Binding) (selected : List (Text × Text)) (before : Trail) : Except Error Anchor → State → Trail → Prop
  | .error _, t, log => b.Known none t log
  | .ok anchor, t, log =>
    b.Known (some anchor) { t with cleanupIds := anchor.map Prod.snd } log ∧ Anchored anchor (selected.map Prod.snd) ∧
      (.mark (.inspected selected), .done) ∈ log ∧ stages log = stages before

theorem containerGeneration_ends {selected : List (Text × Text)} (hk : b.Known none t log)
    (hinspected : (.mark (.inspected selected), .done) ∈ log) (hids : t.ids = selected.map Prod.snd)
    (hseven : selected.length = 7) :
    Meets b.Allowed (b.containerGeneration selected) (b.Opened selected log) t log := by
  refine meets_bind (meets_call fun r => ⟨Op.free.allowed b rfl r _, fun raw hraw => ?_⟩)
  cases r with
  | bytes raw' =>
    obtain rfl := Option.some.inj hraw
    have hk₁ : b.Known none t ((.readGeneration, .bytes raw') :: log) := hk.cons rfl
    refine meets_bind (meets_ofOption (fun value hvalue => ?_) fun _ => ?_)
    case refine_2 => exact hk₁
    refine meets_bind (meets_ofOption (fun anchor hanchor => ?_) fun _ => ?_)
    case refine_2 => exact hk₁
    obtain ⟨hself, hselected⟩ := generation_anchored hanchor hseven
    have hloaded : b.reader.loadsBytes raw' = .ok value := by
      cases hload : b.reader.loadsBytes raw' with
      | ok v => simpa [hload, Except.toOption] using hvalue
      | error e => simp [hload, Except.toOption] at hvalue
    have haccepted : b.Accepted anchor ((.readGeneration, .bytes raw') :: log) :=
      ⟨⟨raw', value, selected, by simp, List.mem_cons_of_mem _ hinspected, hloaded, hanchor⟩,
        by simpa using hself.2.1, hself.1⟩
    refine meets_bind (meets_call fun r => ⟨⟨trivial, haccepted⟩, fun _ hr => ?_⟩)
    cases r with
    | done =>
      refine meets_pure ⟨?_, hselected, by simp [hinspected], rfl⟩
      rw [← hids] at hselected
      refine ⟨haccepted.grown (@Grown.cons _ _ (fun _ => true) _ _ _ Grown.refl rfl), fun other r hmem => ?_, rfl, hselected.1,
        hselected.2.1, hselected.2.2, ?_⟩
      · rcases List.mem_cons.mp hmem with h | h
        · exact (by simpa using h : other = anchor ∧ r = .done).1
        · exact absurd h (hk₁.open_ other r)
      · rw [hk.helpers]
        simp
    | _ => cases hr
  | _ => cases hraw

/-- The steps from the closed admission to the listener, each behind the evidence of the one before. -/
theorem start_settles (hk : b.Known none t log) (hstages : stages log = []) :
    Meets b.Allowed b.start b.Settled t log := by
  refine settled_bind (@ensureRunning_keeps _ _ _ _ Op.quiet hk rfl) fun _ t₁ log₁ hk₁ hgrown₁ _ => ?_
  refine settled_bind (inspect_keeps hk₁ false true) ?_
  rintro selected t₂ log₂ hk₂ hgrown₂ ⟨hids, hseven, between, rfl, -⟩
  refine meets_bind ((containerGeneration_ends hk₂ List.mem_cons_self hids hseven).mono ?_)
  rintro (e | anchor) t₃ log₃ hopened
  · exact ⟨none, hopened⟩
  obtain ⟨hk₃, hanchored, hinspected, hstages₃⟩ := hopened
  replace hstages₃ : stages log₃ = [] := by rw [hstages₃, stages_grown (hgrown₁.trans hgrown₂), hstages]
  refine meets_bind (meets_modify ?_)
  refine meets_bind (meets_ofOption (fun appIds happs => ?_) fun _ => ⟨_, hk₃⟩)
  have happIds : ∀ id ∈ appIds, id ∈ anchor.map Prod.snd := by
    intro id hid
    obtain ⟨name, -, hmem⟩ := pick_mem happs hid
    exact (hanchored.2.2 id).mp (List.mem_map_of_mem hmem)
  refine settled_bind (call_keeps hk₃ (fun stopping r _ => ?_) rfl quiet_of_reads fun _ h => h) ?_
  · exact ⟨⟨anchor, (hk₃.cons (e := (.enter "close-admission", .yes stopping)) rfl).accepted, .inl happIds⟩, trivial⟩
  rintro ⟨code, stdout⟩ _ _ hk₄ hgrown₄ ⟨rfl, hcode, recent, stopping, hrecent, rfl⟩
  obtain rfl : code = 0 := by simpa using hcode
  refine passed_bind .admissionClosed hk₄
    ⟨selected, appIds, stdout, happs, mem_sinceStage_run hrecent rfl, hgrown₄.mem hinspected⟩ fun hk₅ => ?_
  refine settled_bind (call_quiet hk₅ rfl) fun _ t₆ log₆ hk₆ hgrown₆ _ => ?_
  refine settled_bind (backingData_keeps hk₆) fun _ t₇ log₇ hk₇ hgrown₇ hbacking => ?_
  refine passed_bind .backingData hk₇ hbacking fun hk₈ => ?_
  refine settled_bind (@must_keeps _ _ _ _ Op.quiet _ hk₈ rfl rfl) fun _ t₉ log₉ hk₉ hgrown₉ _ => ?_
  refine settled_bind (startIds_keeps hk₉ _ fun h => absurd h (by decide)) fun _ t₁₀ log₁₀ hk₁₀ hgrown₁₀ hdependencies => ?_
  refine passed_bind .dependencies hk₁₀ hdependencies fun hk₁₁ => ?_
  refine meets_get ?_
  refine meets_bind (meets_ofOption (fun rendered _ => ?_) fun _ => ⟨_, hk₁₁⟩)
  refine meets_bind (meets_ofOption (fun database _ => ?_) fun _ => ⟨_, hk₁₁⟩)
  refine settled_bind (wait_keeps (E := fun _ => True) (fun _ _ _ h => h) (fun t log hk => Keeping.weaken
    (databaseReady_keeps hk database) (fun _ h => h) fun _ _ _ _ _ _ => trivial) hk₁₁) fun _ t₁₂ log₁₂ hk₁₂ hgrown₁₂ _ => ?_
  refine settled_bind (oneoff_keeps hk₁₂ _ .schema) fun _ t₁₃ log₁₃ hk₁₃ hgrown₁₃ hschema => ?_
  refine passed_bind (.task .schema) hk₁₃ hschema fun hk₁₄ => ?_
  refine settled_bind (oneoff_keeps hk₁₄ _ .securityStore) fun _ t₁₅ log₁₅ hk₁₅ hgrown₁₅ hstore => ?_
  refine passed_bind (.task .securityStore) hk₁₅ hstore fun hk₁₆ => ?_
  refine settled_bind (oneoff_keeps hk₁₆ _ .admission) fun _ t₁₇ log₁₇ hk₁₇ hgrown₁₇ hadmission => ?_
  refine passed_bind (.task .admission) hk₁₇ hadmission fun hk₁₈ => ?_
  refine settled_bind (@ensureRunning_keeps _ _ _ _ Op.quiet hk₁₈ rfl) fun _ t₁₉ log₁₉ hk₁₉ hgrown₁₉ _ => ?_
  refine settled_bind (oneoff_keeps hk₁₉ _ .search) fun _ t₂₀ log₂₀ hk₂₀ hgrown₂₀ hsearch => ?_
  refine passed_bind (.task .search) hk₂₀ hsearch fun hk₂₁ => ?_
  refine settled_bind (startIds_keeps hk₂₁ _ fun h => absurd h (by decide)) fun _ t₂₂ log₂₂ hk₂₂ hgrown₂₂ hworkers => ?_
  refine passed_bind .workers hk₂₂ hworkers fun hk₂₃ => ?_
  refine settled_bind (wait_keeps (E := b.Evidence .consumers) (fun _ _ hgrown ⟨stdout, h, hready⟩ =>
    ⟨stdout, mem_sinceStage_grown hgrown h, hready⟩) (fun t log hk => consumers_keep hk) hk₂₃)
    fun _ t₂₄ log₂₄ hk₂₄ hgrown₂₄ hconsumers => ?_
  refine passed_bind .consumers hk₂₄ hconsumers fun hk₂₅ => ?_
  refine settled_bind (startIds_keeps hk₂₅ _ fun _ => ?_) fun _ t₂₆ log₂₆ hk₂₆ hgrown₂₆ _ => ?_
  · rw [stages_passed, stages_grown hgrown₂₄, stages_passed, stages_grown hgrown₂₂, stages_passed,
      stages_grown hgrown₂₀, stages_grown hgrown₁₉, stages_passed, stages_grown hgrown₁₇, stages_passed,
      stages_grown hgrown₁₅, stages_passed, stages_grown hgrown₁₃, stages_grown hgrown₁₂, stages_passed,
      stages_grown hgrown₁₀, stages_grown hgrown₉, stages_passed, stages_grown hgrown₇, stages_grown hgrown₆,
      stages_passed, stages_grown hgrown₄, hstages₃]
    rfl
  refine settled_bind (inspect_keeps hk₂₆ true true) fun _ t₂₇ log₂₇ hk₂₇ _ _ => ?_
  refine settled_bind (wait_keeps (E := fun _ => True) (fun _ _ _ h => h) (fun t log hk => Keeping.weaken
    (ask_keeps hk rfl rfl) (fun _ h => h) fun _ _ _ _ _ _ => trivial) hk₂₇) fun _ t₂₈ log₂₈ hk₂₈ _ _ => ?_
  exact (@ensureRunning_keeps _ _ _ _ Op.quiet hk₂₈ rfl).mono fun _ _ _ h => ⟨_, h.1⟩

end Start

section Cleanup

/-- What holds when `stop` is left. -/
def Binding.Closed (b : Binding) {α : Type} (_ : Except Error α) (t : State) (log : Trail) : Prop :=
  ∃ a, b.Known a t log ∧ ∀ anchor, a = some anchor → Cleaned (anchor.map Prod.snd) log

theorem enter_stop_allowed {stopping : Bool} {r : Reply} {seconds : ℕ} {ids : List Text} {label : String}
    (hk : b.Known (some anchor) t log) (hids : ∀ id ∈ ids, id ∈ anchor.map Prod.snd) :
    b.Allowed (.run (.stop seconds ids), r) ((.enter label, .yes stopping) :: log) :=
  ⟨⟨anchor, (hk.cons (e := (.enter label, .yes stopping)) rfl).accepted, .inl hids⟩, trivial⟩

/-- The listing shows what is stopped, or it raised. -/
theorem cleanup_closes (hk : b.Known a t log) : Meets b.Allowed cleanup b.Closed t log := by
  refine meets_get ?_
  cases a with
  | none =>
    dsimp only
    rw [hk.cleanup]
    exact meets_pure ⟨none, hk, by simp⟩
  | some anchor =>
    have hsome : t.cleanupIds ≠ [] := by
      intro hnil
      have hseven := hk.accepted.2.1
      rw [hk.cleanup, List.map_eq_nil_iff] at hnil
      simp [hnil] at hseven
    dsimp only
    rw [if_neg hsome]
    refine meets_bind (meets_catch (call_ends (fun stopping r _ => Op.free.allowed b rfl r _) fun r log₁ hcalled => ?_))
    have hk₁ : b.Known (some anchor) t log₁ := hk.grown (hcalled.grown rfl fun op hop => by
      rcases hop with ⟨label, rfl⟩ | rfl | rfl <;> rfl)
    cases hcalled with
    | refused h => cases h
    | raised e stopping outcome recent hrecent h =>
      have hunlisted : b.Order (.mark .unlisted, .done) (recent ++ (.run .psAll, .outcome outcome) ::
          (.enter "cleanup-selection", .yes stopping) :: log) :=
        ⟨recent, outcome, .yes stopping, log, rfl, fun e he => by simpa using hrecent e he, h rfl⟩
      refine meets_bind (meets_call fun r => ⟨⟨trivial, hunlisted⟩, fun _ hr => ?_⟩)
      cases r with
      | done =>
        refine meets_throw ⟨some anchor, hk₁.cons rfl, ?_⟩
        rintro _ ⟨⟩
        exact .inl List.mem_cons_self
      | _ => cases hr
    | returned code stdout stopping recent hrecent h hcode =>
      obtain rfl : code = 0 := by simpa using hcode
      obtain rfl := h rfl rfl
      refine meets_bind (meets_call fun r => ⟨⟨trivial, stdout, .yes stopping, log, rfl, rfl⟩, fun _ hr => ?_⟩)
      cases r with
      | done =>
        have hk₂ := hk₁.cons (e := (.mark (.listed (splitWords stdout)), .done)) rfl
        dsimp only [Then]
        rw [hk.cleanup]
        split_ifs with hnone
        · refine meets_pure ⟨some anchor, hk₂, ?_⟩
          rintro _ ⟨⟩
          exact .inr ⟨_, List.mem_cons_self, .inl hnone⟩
        · refine meets_bind (call_ends (fun stopping r _ => enter_stop_allowed hk₂ fun id hid => ?_) fun r log₃ hcalled => ?_)
          · exact List.mem_of_mem_filter hid
          have hk₃ := hk₂.grown (hcalled.grown rfl fun op hop => by
            rcases hop with ⟨label, rfl⟩ | rfl | rfl <;> rfl)
          obtain ⟨recent, outcome, stopping, hrecent, rfl⟩ := hcalled.ran rfl
          have hclosed : b.Closed (.ok ()) t (recent ++ _) :=
            ⟨some anchor, hk₃, fun _ h => Option.some.inj h ▸ .inr ⟨_, by simp, .inr ⟨_, _, _, _, hrecent, rfl⟩⟩⟩
          cases r with
          | ok => exact meets_pure hclosed
          | error => exact hclosed
      | _ => cases hr

theorem stop_closes (hk : b.Known a t log) : Meets b.Allowed b.stop b.Closed t log := by
  refine meets_finally ((stopHelpers_keeps hk).mono fun r t₁ log₁ ⟨hk₁, _, _⟩ => ?_)
  refine (cleanup_closes hk₁).mono fun r' t₂ log₂ hclosed => ?_
  cases r' with
  | ok => exact hclosed
  | error => exact hclosed

end Cleanup

section Supervise

theorem watch_keeps (n : ℕ) (hk : b.Known a t log) :
    Meets b.Allowed (b.watch n) (Keeping (b.Known a) Op.quiet log fun _ _ _ => True) t log := by
  induction n generalizing t log with
  | zero => trivial
  | succ n ih =>
    refine keeping_bind (ask_keeps hk rfl rfl) fun stopping t₁ log₁ hk₁ _ _ => ?_
    cases stopping with
    | true => exact keeping_pure hk₁ trivial
    | false =>
      refine keeping_bind (loadManifest_keeps hk₁) fun _ t₂ log₂ hk₂ _ _ => ?_
      refine keeping_bind (inspect_keeps hk₂ true false) fun _ t₃ log₃ hk₃ _ _ => ?_
      exact ih hk₃

theorem serve_settles (hk : b.Known none t log) (hstages : stages log = []) :
    Meets b.Allowed b.serve b.Settled t log := by
  refine meets_bind ((start_settles hk hstages).mono ?_)
  rintro (e | _) t₁ log₁ ⟨a, hk₁⟩
  · exact ⟨a, hk₁⟩
  · refine settled_bind (@ensureRunning_keeps _ _ _ _ Op.quiet hk₁ rfl) fun _ t₂ log₂ hk₂ _ _ => ?_
    refine settled_bind (@must_keeps _ _ _ _ Op.quiet _ hk₂ rfl rfl) fun _ t₃ log₃ hk₃ _ _ => ?_
    refine settled_bind (askCount_keeps hk₃ rfl) fun n t₄ log₄ hk₄ _ _ => ?_
    exact (watch_keeps n hk₄).mono fun _ _ _ h => ⟨a, h.1⟩

theorem guarded_settles (hk : b.Known none t log) (hstages : stages log = []) :
    Meets b.Allowed b.guarded b.Settled t log := by
  refine meets_catch ((serve_settles hk hstages).mono ?_)
  rintro (e | _) t₁ log₁ ⟨a, hk₁⟩
  · cases e with
    | cancelled => exact must_free rfl ⟨a, hk₁.cons rfl⟩ ⟨a, hk₁.cons rfl⟩
    | failed => exact meets_bind (must_free rfl ⟨a, hk₁.cons rfl⟩ ⟨a, hk₁.cons rfl⟩)
  · exact ⟨a, hk₁⟩

/-- However the body ends, `stop` comes next. -/
theorem stopped_closes (hk : b.Known none t log) (hstages : stages log = []) :
    Meets b.Allowed (b.guarded.finally b.stop) b.Closed t log := by
  refine meets_finally ((guarded_settles hk hstages).mono fun r t₁ log₁ ⟨a, hk₁⟩ => ?_)
  refine (stop_closes hk₁).mono fun r' t₂ log₂ hclosed => ?_
  cases r' with
  | ok => exact hclosed
  | error => exact hclosed

/-- `supervise` has been left: behind its `finally`, or without the lock. -/
def Left (log : Trail) : Prop :=
  (∃ rest, log = (.mark .left, .done) :: rest) ∨ log = [(.check "supervisor.lock", .yes false)]

theorem supervise_allowed : Meets b.Allowed b.supervise (fun _ _ log => Left log) State.fresh [] := by
  have hfresh : b.Known none State.fresh [] := ⟨rfl, rfl, by simp⟩
  refine meets_bind (must_free rfl ?_ (.inr rfl))
  have hk : b.Known none State.fresh [(.check "supervisor.lock", .yes true)] := hfresh.cons rfl
  dsimp only [Then]
  refine meets_finally ((stopped_closes hk rfl).mono ?_)
  rintro r t₁ log₁ ⟨a, hk₁, hcleaned⟩
  refine meets_call fun r' => ⟨⟨trivial, fun anchor haccepted => ?_⟩, fun _ hr => ?_⟩
  · cases a with
    | none => exact absurd haccepted (hk₁.open_ anchor _)
    | some anchor' =>
      obtain rfl := hk₁.only anchor _ haccepted
      exact hcleaned _ rfl
  · cases r' with
    | done => exact .inl ⟨_, rfl⟩
    | _ => cases hr

/-- Every entry of every run is allowed by those before it. -/
theorem supervise_lawful (b : Binding) (replies : List Reply) :
    Lawful b.Allowed ((b.supervise State.fresh).trail replies []) :=
  Follows.lawful supervise_allowed trivial replies

end Supervise

end Runtime

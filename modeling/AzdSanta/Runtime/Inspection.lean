import AzdSanta.Runtime.Laws

/-! The calls of the supervisor one by one, and its inspections: they read, keep what is known, and
select containers of the anchor. -/
namespace Runtime
open Python Processes

variable {b : Binding} {a : Option Anchor} {t : State} {log : Trail}

section Calls

/-- How `call` can end. -/
inductive Called (label : String) (c : Command) (o : Options) (log : Trail) : Except Error (ℤ × Text) → Trail → Prop
  | refused (h : o.allowStopping = false) :
      Called label c o log (.error .cancelled) ((.enter label, .yes true) :: log)
  | raised (e : Error) (stopping : Bool) (outcome : Outcome) (recent : Trail)
      (hrecent : ∀ e ∈ recent, e.1 = .record ∨ (e.1 = .poll ∧ o.allowStopping = false))
      (h : o.allowStopping = true → ∀ stdout, outcome = .result 0 stdout → (.record, .yes false) ∈ recent) :
      Called label c o log (.error e) (recent ++ (.run c, .outcome outcome) :: (.enter label, .yes stopping) :: log)
  | returned (code : ℤ) (stdout : Text) (stopping : Bool) (recent : Trail)
      (hrecent : ∀ e ∈ recent, e.1 = .record ∨ (e.1 = .poll ∧ o.allowStopping = false))
      (h : o.allowStopping = true → o.record = true → recent = [(.record, .yes true)])
      (hcode : code = 0 ∨ o.allowedFailure = true) :
      Called label c o log (.ok (code, stdout))
        (recent ++ (.run c, .outcome (.result code stdout)) :: (.enter label, .yes stopping) :: log)

theorem ask_free {op : Op} (hop : op.free = true) {Q : Except Error Bool → State → Trail → Prop}
    (h : ∀ v, Q (.ok v) t ((op, .yes v) :: log)) : Meets b.Allowed (ask op) Q t log := by
  refine meets_call fun r => ⟨Op.free.allowed b hop r log, fun v hv => ?_⟩
  cases r with
  | yes w => exact Option.some.inj hv ▸ h w
  | _ => cases hv

theorem must_free {op : Op} (hop : op.free = true) {Q : Except Error Unit → State → Trail → Prop}
    (hok : Q (.ok ()) t ((op, .yes true) :: log)) (herror : Q (.error .failed) t ((op, .yes false) :: log)) :
    Meets b.Allowed (must op) Q t log := by
  refine meets_bind (ask_free hop fun v => ?_)
  cases v with
  | true => exact meets_need (fun _ => hok) fun h => absurd rfl h
  | false => exact meets_need (fun h => by cases h) fun _ => herror

theorem ensureRunning_ends {Q : Except Error Unit → State → Trail → Prop}
    (hok : Q (.ok ()) t ((.poll, .yes false) :: log)) (herror : Q (.error .cancelled) t ((.poll, .yes true) :: log)) :
    Meets b.Allowed ensureRunning Q t log := by
  refine meets_bind (ask_free rfl fun v => ?_)
  cases v with
  | true => exact herror
  | false => exact hok

theorem settle_ends (o : Options) (outcome : Outcome) {base : Trail}
    {Q : Except Error (ℤ × Text) → State → Trail → Prop}
    (hraised : ∀ e recent, (∀ e ∈ recent, e.1 = .record ∨ (e.1 = .poll ∧ o.allowStopping = false)) →
      (o.allowStopping = true → ∀ stdout, outcome = .result 0 stdout → (.record, .yes false) ∈ recent) →
      Q (.error e) t (recent ++ base))
    (hreturned : ∀ code stdout recent, outcome = .result code stdout →
      (∀ e ∈ recent, e.1 = .record ∨ (e.1 = .poll ∧ o.allowStopping = false)) →
      (o.allowStopping = true → o.record = true → recent = [(.record, .yes true)]) →
      (code = 0 ∨ o.allowedFailure = true) → Q (.ok (code, stdout)) t (recent ++ base)) :
    Meets b.Allowed (settle o outcome) Q t base := by
  cases outcome with
  | timeout =>
    refine meets_bind (must_free rfl ?_ ?_)
    · exact meets_throw (hraised .failed [_] (by simp) (by simp))
    · exact hraised .failed [_] (by simp) (by simp)
  | error => exact meets_throw (hraised .failed [] (by simp) (by simp))
  | result code stdout =>
    -- What is left once the evidence is written, or did not have to be.
    have hrest : ∀ noted : Trail, (∀ e ∈ noted, e.1 = .record) →
        (o.record = true ∨ code ≠ 0 → noted = [(.record, .yes true)]) →
        Meets b.Allowed (do
          need (code = 0 ∨ o.allowedFailure = true)
          o.goOn
          return (code, stdout)) Q t (noted ++ base) := by
      intro noted hnoted hrecorded
      refine meets_bind (meets_need (fun hcode => ?_) fun hcode => ?_)
      · refine meets_bind (x := o.goOn) ?_
        unfold Options.goOn
        cases hstop : o.allowStopping with
        | true =>
          refine meets_pure (meets_pure ?_)
          exact hreturned code stdout noted rfl (fun e he => .inl (hnoted e he)) (fun _ h => hrecorded (.inl h)) hcode
        | false =>
          refine ensureRunning_ends (meets_pure ?_) ?_
          · refine hreturned code stdout ((.poll, .yes false) :: noted) rfl ?_ (by simp [hstop]) hcode
            intro e he
            rcases List.mem_cons.mp he with rfl | he
            · exact .inr ⟨rfl, hstop⟩
            · exact .inl (hnoted e he)
          · refine hraised .cancelled ((.poll, .yes true) :: noted) ?_ (by simp [hstop])
            intro e he
            rcases List.mem_cons.mp he with rfl | he
            · exact .inr ⟨rfl, hstop⟩
            · exact .inl (hnoted e he)
      · refine hraised .failed noted (fun e he => .inl (hnoted e he)) ?_
        rintro - _ ⟨⟩
        exact absurd (.inl rfl) hcode
    refine meets_bind (x := o.evidence code) ?_
    unfold Options.evidence
    split_ifs with hrecord
    · refine must_free rfl (hrest [_] (by simp) (by simp)) ?_
      exact hraised .failed [_] (by simp) (by simp)
    · exact meets_pure (hrest [] (by simp) fun h => absurd h hrecord)

/-- A call ends in one of three ways, and its command runs only if the flag allows it. -/
theorem call_ends {label : String} {c : Command} {o : Options} {Q : Except Error (ℤ × Text) → State → Trail → Prop}
    (hc : ∀ stopping r, (o.allowStopping = false → stopping = false) →
      b.Allowed (.run c, r) ((.enter label, .yes stopping) :: log))
    (hQ : ∀ r log', Called label c o log r log' → Q r t log') : Meets b.Allowed (call label c o) Q t log := by
  refine meets_bind (ask_free rfl fun stopping => ?_)
  dsimp only [Then]
  split_ifs with hstop
  · obtain ⟨rfl, hallow⟩ := hstop
    exact meets_throw (hQ _ _ (.refused hallow))
  · have hflag : o.allowStopping = false → stopping = false := fun h => by simpa [h] using hstop
    refine meets_bind (meets_call fun r => ⟨hc stopping r hflag, fun outcome houtcome => ?_⟩)
    cases r with
    | outcome out =>
      obtain rfl := Option.some.inj houtcome
      refine settle_ends o _ (fun e recent hrecent h => ?_) fun code stdout recent hout hrecent h hcode => ?_
      · exact hQ _ _ (.raised e stopping _ recent hrecent h)
      · subst hout
        exact hQ _ _ (.returned code stdout stopping recent hrecent h hcode)
    | _ => cases houtcome

/-- The entries of a call. -/
theorem Called.grown {label : String} {c : Command} {o : Options} {r : Except Error (ℤ × Text)} {log' : Trail}
    {kind : Op → Bool} (h : Called label c o log r log') (hc : kind (.run c) = true)
    (hbook : ∀ op : Op, (∃ label, op = .enter label) ∨ op = .record ∨ op = .poll → kind op = true) :
    Grown kind log log' := by
  have hbase : ∀ recent : Trail, (∀ e ∈ recent, e.1 = .record ∨ (e.1 = .poll ∧ o.allowStopping = false)) →
      ∀ outcome stopping, Grown kind log
        (recent ++ (.run c, .outcome outcome) :: (.enter label, .yes stopping) :: log) := by
    intro recent hrecent outcome stopping
    have hcall : Grown kind log ((Op.run c, Reply.outcome outcome) :: (.enter label, .yes stopping) :: log) :=
      (Grown.refl.cons (hbook _ (.inl ⟨label, rfl⟩))).cons hc
    refine hcall.trans ⟨recent, rfl, fun e he => hbook _ (.inr ?_)⟩
    exact (hrecent e he).imp_right And.left
  cases h with
  | refused => exact Grown.refl.cons (hbook _ (.inl ⟨label, rfl⟩))
  | raised e stopping outcome recent hrecent => exact hbase recent hrecent outcome stopping
  | returned code stdout stopping recent hrecent => exact hbase recent hrecent _ stopping

/-- A call that the flag does not stop runs its command, and after it only writes evidence. -/
theorem Called.ran {label : String} {c : Command} {o : Options} {r : Except Error (ℤ × Text)} {log' : Trail}
    (h : Called label c o log r log') (ho : o.allowStopping = true) :
    ∃ recent outcome stopping, (∀ e ∈ recent, e.1 = .record) ∧
      log' = recent ++ (.run c, .outcome outcome) :: (.enter label, .yes stopping) :: log := by
  cases h with
  | refused h => simp [ho] at h
  | raised e stopping outcome recent hrecent => exact ⟨recent, _, _, fun e he => by simpa [ho] using hrecent e he, rfl⟩
  | returned code stdout stopping recent hrecent =>
    exact ⟨recent, _, _, fun e he => by simpa [ho] using hrecent e he, rfl⟩

end Calls

section Keeping
variable {kind : Op → Bool}

/-- A call for information, by the kind of the calls around it. -/
theorem call_keeps {label : String} {c : Command} {o : Options} (hk : b.Known a t log)
    (hc : ∀ stopping r, (o.allowStopping = false → stopping = false) →
      b.Allowed (.run c, r) ((.enter label, .yes stopping) :: log))
    (hkind : kind (.run c) = true) (hreads : ∀ op, op.reads = true → kind op = true)
    (hquiet : ∀ op, kind op = true → op.quiet = true) :
    Meets b.Allowed (call label c o) (Keeping (b.Known a) kind log fun v t' log' => t' = t ∧
      (v.1 = 0 ∨ o.allowedFailure = true) ∧ ∃ recent stopping,
        (∀ e ∈ recent, e.1.reads = true) ∧
        log' = recent ++ (.run c, .outcome (.result v.1 v.2)) :: (.enter label, .yes stopping) :: log) t log := by
  refine call_ends hc fun r log' h => ?_
  have hgrown : Grown kind log log' := h.grown hkind fun op hop => hreads op <| by
    rcases hop with ⟨label, rfl⟩ | rfl | rfl <;> rfl
  refine ⟨hk.grown (hgrown.weaken hquiet), hgrown, ?_⟩
  rintro v rfl
  cases h with
  | returned code stdout stopping recent hrecent _ hcode =>
    refine ⟨rfl, hcode, recent, stopping, fun e he => ?_, rfl⟩
    rcases hrecent e he with h | ⟨h, -⟩ <;> rw [h] <;> rfl

theorem ask_keeps {op : Op} (hk : b.Known a t log) (hfree : op.free = true) (hkind : kind op = true) :
    Meets b.Allowed (ask op) (Keeping (b.Known a) kind log fun v t' log' => t' = t ∧ log' = (op, .yes v) :: log) t log := by
  refine ask_free hfree fun v => ⟨hk.cons (Op.free.quiet hfree), Grown.refl.cons hkind, ?_⟩
  rintro _ ⟨⟩
  exact ⟨rfl, rfl⟩

theorem must_keeps {op : Op} (hk : b.Known a t log) (hfree : op.free = true) (hkind : kind op = true) :
    Meets b.Allowed (must op) (Keeping (b.Known a) kind log fun _ t' log' => t' = t ∧ log' = (op, .yes true) :: log)
      t log := by
  refine must_free hfree ⟨hk.cons (Op.free.quiet hfree), Grown.refl.cons hkind, ?_⟩ ⟨hk.cons (Op.free.quiet hfree), Grown.refl.cons hkind, ?_⟩
  · exact fun _ _ => ⟨rfl, rfl⟩
  · rintro _ ⟨⟩

theorem ensureRunning_keeps (hk : b.Known a t log) (hkind : kind .poll = true) :
    Meets b.Allowed ensureRunning (Keeping (b.Known a) kind log fun _ t' log' => t' = t ∧ log' = (.poll, .yes false) :: log)
      t log := by
  refine ensureRunning_ends ⟨hk.cons rfl, Grown.refl.cons hkind, ?_⟩ ⟨hk.cons rfl, Grown.refl.cons hkind, ?_⟩
  · exact fun _ _ => ⟨rfl, rfl⟩
  · rintro _ ⟨⟩

theorem done_keeps {m : Mark} (hk : b.Known a t log) (hm : (Op.mark m).quiet = true)
    (horder : ∀ r, b.Order (.mark m, r) log) :
    Meets b.Allowed (done (.mark m)) (Keeping (b.Known a) Op.quiet log fun _ t' log' =>
      t' = t ∧ log' = (.mark m, .done) :: log) t log := by
  refine keeping_call (fun r => ⟨by cases m <;> trivial, horder r⟩) (fun _ => hk.cons hm) hm fun r _ hr => ?_
  cases r with
  | done => exact ⟨rfl, rfl⟩
  | _ => cases hr

/-- A routine that only reads, among others that do more. -/
theorem reading {α : Type} {x : RT α} {P : α → State → Trail → Prop}
    (h : Meets b.Allowed x (Keeping (b.Known a) Op.reads log P) t log) :
    Meets b.Allowed x (Keeping (b.Known a) Op.quiet log fun v t' log' => Grown Op.reads log log' ∧ P v t' log') t log :=
  Keeping.weaken h (fun _ h => Op.free.quiet (Op.reads.free h)) fun _ _ _ hgrown hP => ⟨hgrown, hP⟩

/-- A call that only reads. -/
theorem call_reads {label : String} {c : Command} {o : Options} (hk : b.Known a t log)
    (hc : (Op.run c).reads = true) :
    Meets b.Allowed (call label c o) (Keeping (b.Known a) Op.reads log fun v t' log' => t' = t ∧
      (v.1 = 0 ∨ o.allowedFailure = true) ∧ ∃ recent stopping, (∀ e ∈ recent, e.1.reads = true) ∧
        log' = recent ++ (.run c, .outcome (.result v.1 v.2)) :: (.enter label, .yes stopping) :: log) t log :=
  call_keeps hk (fun _ r _ => Op.free.allowed b (Op.reads.free hc) r _) hc (fun _ h => h)
    fun _ h => Op.free.quiet (Op.reads.free h)

end Keeping

section Inspect

theorem loadManifest_keeps (hk : b.Known a t log) :
    Meets b.Allowed loadManifest (Keeping (b.Known a) Op.quiet log fun _ t' log' =>
      t' = t ∧ log' = (.mark .manifest, .done) :: (.loadManifest, .yes true) :: log) t log := by
  refine keeping_bind (must_keeps hk rfl rfl) ?_
  rintro _ _ _ hk - ⟨rfl, rfl⟩
  exact done_keeps hk rfl fun _ => ⟨log, rfl⟩

theorem image_reads (hk : b.Known a t log) (ref : Text) :
    Meets b.Allowed (b.image ref) (Keeping (b.Known a) Op.reads log fun _ _ _ => True) t log := by
  refine keeping_get ?_
  split
  · exact keeping_pure hk trivial
  · refine keeping_bind (call_reads hk rfl) fun v t log hk _ _ => ?_
    refine keeping_ofOption_bind hk fun v _ => ?_
    split
    · refine keeping_modify_bind ?_
      exact keeping_pure (hk.noted _ _) trivial
    · exact keeping_throw hk

/-- One round of the loop checks its row. -/
theorem select_reads (hk : b.Known a t log) (running : Bool) (rendered row : Json) (selected : List (Text × Text)) :
    Meets b.Allowed (b.select running rendered selected row) (Keeping (b.Known a) Op.reads log fun selected' _ _ =>
      ∃ member, b.Checked rendered row member ∧ selected' = selected ++ [member]) t log := by
  refine keeping_ofOption_bind hk fun name hname => ?_
  refine keeping_ofOption_bind hk fun ref _ => ?_
  refine keeping_bind (image_reads hk ref) fun image t log hk _ _ => ?_
  refine keeping_ofOption_bind hk fun _ hcheck => ?_
  refine keeping_ofOption_bind hk fun id hid => ?_
  split
  · exact keeping_pure hk ⟨(name, _), ⟨running, selected, image, hname, hcheck, hid⟩, rfl⟩
  · exact keeping_throw hk

/-- The whole loop: a member for each row. -/
theorem rows_read (hk : b.Known a t log) (running : Bool) (rendered : Json) (rows : List Json)
    (selected : List (Text × Text)) :
    Meets b.Allowed (rows.foldlM (b.select running rendered) selected) (Keeping (b.Known a) Op.reads log
      fun selected' _ _ => ∃ added, List.Forall₂ (b.Checked rendered) rows added ∧ selected' = selected ++ added) t log := by
  induction rows generalizing selected t log with
  | nil => exact keeping_pure hk ⟨[], .nil, by simp⟩
  | cons row rows ih =>
    rw [List.foldlM_cons]
    refine keeping_bind (select_reads hk running rendered row selected) ?_
    rintro _ t log hk - ⟨member, hmember, rfl⟩
    refine Keeping.weaken (ih hk _) (fun _ h => h) ?_
    rintro _ _ _ - ⟨added, hadded, rfl⟩
    exact ⟨member :: added, .cons hmember hadded, by simp⟩

theorem rendering_reads (hk : b.Known a t log) :
    Meets b.Allowed b.rendering (Keeping (b.Known a) Op.reads log fun _ _ _ => True) t log := by
  refine keeping_get ?_
  split
  · exact keeping_pure hk trivial
  · refine keeping_bind (call_reads hk rfl) fun v t log hk _ _ => ?_
    refine keeping_ofOption_bind hk fun v _ => ?_
    refine keeping_modify_bind ?_
    exact keeping_pure (hk.noted _ _) trivial

/-- Seven different ids, those of the anchor. -/
def Anchored (anchor : Anchor) (ids : List Text) : Prop :=
  ids.Nodup ∧ ids.length = 7 ∧ ∀ id, id ∈ ids ↔ id ∈ anchor.map Prod.snd

theorem Anchored.of_subset {anchor : Anchor} {ids found : List Text} (h : Anchored anchor ids)
    (hlength : found.length = 7) (hids : ids ⊆ found) : Anchored anchor found := by
  obtain ⟨hnodup, hseven, hmem⟩ := h
  have hperm : ids.Perm found := (List.subperm_of_subset hnodup hids).perm_of_length_le (by omega)
  exact ⟨hperm.nodup_iff.mp hnodup, hlength, fun id => by rw [← hmem id, hperm.mem_iff]⟩

theorem candidates_reads (hk : b.Known a t log) (record : Bool) :
    Meets b.Allowed (b.candidates record) (Keeping (b.Known a) Op.reads log fun ids _ _ =>
      ∀ anchor, a = some anchor → Anchored anchor ids) t log := by
  refine keeping_get ?_
  dsimp only
  split_ifs with hids
  · refine keeping_pure hk ?_
    rintro anchor rfl
    exact ⟨hk.nodup, hk.seven, hk.ids⟩
  · refine keeping_bind (call_reads hk rfl) fun v t' log hk' _ _ => ?_
    refine keeping_pure hk' ?_
    rintro anchor rfl
    have hseven := hk.seven
    simp_all

theorem rowIds_checked {rendered : Json} {rows : List Json} {selected : List (Text × Text)}
    (h : List.Forall₂ (b.Checked rendered) rows selected) : rowIds rows = some (selected.map Prod.snd) := by
  induction h with
  | nil => rfl
  | cons hrow _ ih =>
    obtain ⟨_, _, _, _, _, hid⟩ := hrow
    rw [rowIds] at ih ⊢
    rw [List.mapM_cons, ih, hid]
    rfl

/-- The selection becomes the known ids. -/
theorem Binding.Known.select (hk : b.Known a t log) (ids : List Text)
    (hids : ∀ anchor, a = some anchor → Anchored anchor ids) : b.Known a { t with ids := ids } log := by
  cases a with
  | none => exact ⟨hk.cleanup, hk.helpers, hk.open_⟩
  | some anchor =>
    obtain ⟨hnodup, hseven, hmem⟩ := hids anchor rfl
    exact ⟨hk.accepted, hk.only, hk.cleanup, hnodup, hseven, hmem, hk.helpers⟩

/-- `inspect` reads until it has checked all seven containers. -/
theorem inspect_keeps (hk : b.Known a t log) (running record : Bool) :
    Meets b.Allowed (b.inspect running record) (Keeping (b.Known a) Op.quiet log fun selected t' log' =>
      t'.ids = selected.map Prod.snd ∧ selected.length = 7 ∧ ∃ between,
        log' = (.mark (.inspected selected), .done) :: (between ++ log) ∧ ∀ e ∈ between, e.1.reads = true) t log := by
  refine keeping_bind (reading (candidates_reads hk record)) fun ids t₁ log₁ hk₁ _ ⟨hread₁, hanchored⟩ => ?_
  refine keeping_need_bind hk₁ fun hseven => keeping_get ?_
  refine keeping_need_bind hk₁ fun _ => ?_
  refine keeping_bind (reading (call_reads hk₁ rfl)) ?_
  rintro ⟨code, stdout⟩ _ log₂ hk₂ - ⟨-, rfl, hcode, recent, stopping, hrecent, rfl⟩
  obtain rfl : code = 0 := by simpa using hcode
  refine keeping_ofOption_bind hk₂ fun value hvalue => ?_
  split
  case h_2 => exact keeping_throw hk₂
  case h_1 rows =>
  refine keeping_ofOption_bind hk₂ fun found hfound => ?_
  refine keeping_need_bind hk₂ fun ⟨hlength, hfoundIds, hidsFound⟩ => ?_
  refine keeping_bind (reading (rendering_reads hk₂)) fun rendered t₃ log₃ hk₃ _ ⟨hread₃, _⟩ => ?_
  refine keeping_bind (reading (rows_read hk₃ running rendered rows [])) ?_
  rintro selected t₄ log₄ hk₄ - ⟨hread₄, selected, hrows, rfl⟩
  rw [rowIds_checked hrows] at hfound
  obtain rfl := Option.some.inj hfound
  have hcount : selected.length = 7 := hrows.length_eq ▸ hlength
  refine keeping_modify_bind ?_
  have hk₅ := hk₄.select (selected.map Prod.snd) fun anchor ha =>
    (hanchored anchor ha).of_subset (by simpa using hcount) hidsFound
  have hsince : Grown Op.reads ((.run (.inspect ids), .outcome (.result 0 stdout)) ::
      (.enter "container-inspection", .yes stopping) :: log₁) log₄ := Grown.trans ⟨recent, rfl, hrecent⟩ (hread₃.trans hread₄)
  have hall : Grown Op.reads log log₄ := hread₁.trans (Grown.trans ⟨[_, _], rfl, by simp [Op.reads]⟩ hsince)
  obtain ⟨added, hadded, hreads⟩ := hsince
  obtain ⟨between, rfl, hbetween⟩ := hall
  have hinspected : b.Inspected selected (between ++ log) :=
    ⟨added, ids, stdout, rows, rendered, _, hadded, hreads, hvalue, hlength,
      fun id => ⟨fun h => hidsFound h, fun h => hfoundIds h⟩, hrows⟩
  refine keeping_bind (done_keeps hk₅ rfl fun _ => hinspected) ?_
  rintro _ _ _ hk₆ - ⟨rfl, rfl⟩
  exact keeping_pure hk₆ ⟨rfl, hcount, between, rfl, hbetween⟩

end Inspect

end Runtime

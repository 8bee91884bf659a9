import AzdSanta.Common.Checks
import AzdSanta.Recovery.Access

/-! What the outcome of `apply_access` says about the database, the artifact and the audit
event. -/
namespace Recovery
open Python Setup Checks

def AccessError.saysCommitted : AccessError → Bool
  | .artifactFailed | .auditFailed => true
  | _ => false

def Raised.saysCommitted : Raised → Bool
  | .access e => e.saysCommitted
  | .other => false

/-- The reset of the target that the request names. -/
inductive ResetDone (site : Site) (r : Request) (before : Tables) : Tables → Prop
  | bootstrap (hmode : r.mode = text "bootstrap") (hnone : ∀ u ∈ before.users, u.isServiceAccount = true) :
      ResetDone site r before
        ({ before with users := before.users ++ [site.newUser r.username r.email] }.reset
          (site.newUser r.username r.email) site.newPassword)
  | recover (user : User) (huser : user ∈ before.users) (hname : user.username = r.username)
      (hemail : user.email = r.email) (hhuman : user.isActive ∧ ¬ user.isRemote ∧ ¬ user.isServiceAccount) :
      ResetDone site r before (before.reset user site.newPassword)

/-- The file holds the whole document, and it is on disk. -/
def Complete (site : Site) (r : Request) (doc : Json) (w : World) : Prop :=
  w.output = some ⟨site.dump r.recipientPublicKey.isSome doc ++ [10], [], true⟩

/-- What each way to end says about the world. -/
structure Truthful (site : Site) (f : Faults) (r : Request) (w : World)
    (x : Except Raised Result × World) : Prop where
  unchanged : ∀ e, x.1 = .error e → e.saysCommitted = false → (∀ applied, f.commit ≠ .unknown applied) →
    x.2.tables = w.tables
  artifactFailed : x.1 = .error (.access .artifactFailed) → ResetDone site r w.tables x.2.tables
  auditFailed : x.1 = .error (.access .auditFailed) →
    ResetDone site r w.tables x.2.tables ∧ ∃ doc, Complete site r doc x.2
  returned : ∀ result, x.1 = .ok result → ResetDone site r w.tables x.2.tables ∧
    (∃ doc, Complete site r doc x.2) ∧ ∃ event, x.2.posted = event :: w.posted

/-- Every check passes and every step succeeds up to the commit and with it. -/
def Commits (site : Site) (f : Faults) (r : Request) (t : Tables) : Prop :=
  ∃ recipient p, prepare site f r = .ok recipient ∧ reserveOutput site f = .ok () ∧
    f.fails .fchmod = false ∧ f.fails .fdopen = false ∧
    transaction site f r recipient t = .ok p ∧ f.commit = .done

section Steps
variable {site : Site} {f : Faults} {r : Request}

theorem refuseIf_eq_ok {c : Prop} [Decidable c] {e : AccessError} : refuseIf c e = .ok () ↔ ¬ c := by
  simp only [refuseIf, throw_eq_error, pure_eq_ok, check_eq_ok, and_true]

theorem raiseIf_eq_ok {s : Step} : raiseIf f s = .ok () ↔ f.fails s = false := by
  simp [raiseIf]

theorem selectTarget_ok {t : Tables} {x : Tables × User × Action × Option User}
    (h : selectTarget site f r t = .ok x) :
    (r.mode = text "bootstrap" ∧ (∀ u ∈ t.users, u.isServiceAccount = true) ∧
      x.1 = { t with users := t.users ++ [site.newUser r.username r.email] } ∧
      x.2.1 = site.newUser r.username r.email) ∨
    (x.1 = t ∧ x.2.1 ∈ t.users ∧ x.2.1.username = r.username ∧ x.2.1.email = r.email ∧
      x.2.1.isActive ∧ ¬ x.2.1.isRemote ∧ ¬ x.2.1.isServiceAccount) := by
  unfold selectTarget at h
  split_ifs at h with hmode
  · obtain ⟨-, -, h⟩ := bind_eq_ok.mp h
    obtain ⟨_, hnone, h⟩ := bind_eq_ok.mp h
    obtain ⟨-, -, h⟩ := bind_eq_ok.mp h
    obtain ⟨-, -, h⟩ := bind_eq_ok.mp h
    obtain ⟨-, -, h⟩ := bind_eq_ok.mp h
    obtain rfl := Except.ok.inj h
    refine Or.inl ⟨hmode, ?_, rfl, rfl⟩
    simpa using refuseIf_eq_ok.mp hnone
  · obtain ⟨-, -, h⟩ := bind_eq_ok.mp h
    split at h
    · cases h
    · next user huser =>
      obtain ⟨_, hemail, h⟩ := bind_eq_ok.mp h
      obtain ⟨_, hhuman, h⟩ := bind_eq_ok.mp h
      obtain ⟨-, -, h⟩ := bind_eq_ok.mp h
      obtain rfl := Except.ok.inj h
      have hname := List.find?_some huser
      have hhuman := refuseIf_eq_ok.mp hhuman
      push Not at hhuman
      refine Or.inr ⟨rfl, List.mem_of_find?_eq_some huser, by simpa using hname, ?_, hhuman.1, ?_⟩
      · simpa using refuseIf_eq_ok.mp hemail
      · exact ⟨by simpa using hhuman.2.1, by simpa using hhuman.2.2⟩

theorem resetTarget_ok {t t' : Tables} {user : User} (h : resetTarget site f t user = .ok t') :
    t' = t.reset user site.newPassword := by
  unfold resetTarget at h
  obtain ⟨-, -, h⟩ := bind_eq_ok.mp h
  obtain ⟨-, -, h⟩ := bind_eq_ok.mp h
  obtain ⟨-, -, h⟩ := bind_eq_ok.mp h
  obtain ⟨-, -, h⟩ := bind_eq_ok.mp h
  obtain ⟨-, -, h⟩ := bind_eq_ok.mp h
  obtain ⟨-, -, h⟩ := bind_eq_ok.mp h
  exact (Except.ok.inj h).symm

/-- A transaction that comes to its end has reset the target and, for a recipient, sealed. -/
theorem transaction_ok {recipient : Option Recipient} {t : Tables} {p : Prepared}
    (h : transaction site f r recipient t = .ok p) : ResetDone site r t p.tables ∧
      ∀ key, recipient = some key → key.seal site.toLibrary p.artifact = some p.output := by
  unfold transaction at h
  obtain ⟨-, -, h⟩ := bind_eq_ok.mp h
  obtain ⟨-, -, h⟩ := bind_eq_ok.mp h
  obtain ⟨⟨base, user, action, previous⟩, htarget, h⟩ := bind_eq_ok.mp h
  obtain ⟨removed, -, h⟩ := bind_eq_ok.mp h
  obtain ⟨tables, hreset, h⟩ := bind_eq_ok.mp h
  obtain ⟨-, -, h⟩ := bind_eq_ok.mp h
  obtain ⟨-, -, h⟩ := bind_eq_ok.mp h
  obtain ⟨-, -, h⟩ := bind_eq_ok.mp h
  obtain ⟨-, -, h⟩ := bind_eq_ok.mp h
  have hdone : ResetDone site r t tables := by
    rw [resetTarget_ok hreset]
    rcases selectTarget_ok htarget with ⟨hmode, hnone, hbase, huser⟩ |
      ⟨hbase, hmem, hname, hemail, hhuman⟩
    · simp only at hbase huser
      rw [hbase, huser]
      exact .bootstrap hmode hnone
    · simp only at hbase hmem hname hemail hhuman
      rw [hbase]
      exact .recover user hmem hname hemail hhuman
  rcases recipient with _ | key
  · obtain rfl := Except.ok.inj h
    exact ⟨hdone, by simp⟩
  · simp only at h
    split at h
    · next envelope hseal =>
      obtain rfl := Except.ok.inj h
      refine ⟨hdone, fun key' hkey => ?_⟩
      obtain rfl := Option.some.inj hkey
      exact hseal
    · cases h

end Steps

section Quiet
variable {α β : Type}

/-- An error that does not speak of a finished reset. -/
def Quiet (x : Except Raised α) : Prop := ∀ e, x = .error e → e.saysCommitted = false

theorem quiet_pure (a : α) : Quiet (pure a) := by
  intro e h
  cases h

theorem quiet_bind {x : Except Raised α} {g : α → Except Raised β} (hx : Quiet x)
    (hg : ∀ a, Quiet (g a)) : Quiet (x >>= g) := by
  intro e h
  rcases x with e' | a
  · exact hx e (by simpa using h)
  · exact hg a e h

theorem quiet_raiseIf (f : Faults) (s : Step) : Quiet (raiseIf f s) := by
  intro e h
  unfold raiseIf at h
  split_ifs at h
  · obtain rfl := (Except.error.inj h).symm
    rfl
  · cases h

theorem quiet_refuseIf {c : Prop} [Decidable c] {e : AccessError} (he : e.saysCommitted = false) :
    Quiet (refuseIf c e) := by
  intro e' h
  unfold refuseIf at h
  split_ifs at h
  · obtain rfl := (Except.error.inj h).symm
    exact he
  · cases h

theorem quiet_throw {e : Raised} (he : e.saysCommitted = false) : Quiet (throw e : Except Raised α) := by
  intro e' h
  obtain rfl := (Except.error.inj h).symm
  exact he

variable (site : Site) (f : Faults) (r : Request)

theorem quiet_prepare : Quiet (prepare site f r) := by
  refine quiet_bind (quiet_bind (quiet_refuseIf rfl) fun _ => quiet_bind (quiet_refuseIf rfl) fun _ =>
    quiet_refuseIf rfl) fun _ => ?_
  refine quiet_bind (quiet_raiseIf f _) fun _ => quiet_bind (quiet_raiseIf f _) fun _ => ?_
  refine quiet_bind (quiet_refuseIf rfl) fun _ => quiet_bind (quiet_refuseIf rfl) fun _ => ?_
  split
  · split
    · exact quiet_pure _
    · exact quiet_throw rfl
  · exact quiet_bind (quiet_refuseIf rfl) fun _ => quiet_pure _

theorem quiet_reserveOutput : Quiet (reserveOutput site f) :=
  quiet_bind (quiet_refuseIf rfl) fun _ => quiet_raiseIf f _

theorem quiet_selectTarget (t : Tables) : Quiet (selectTarget site f r t) := by
  unfold selectTarget
  split_ifs
  · refine quiet_bind (quiet_raiseIf f _) fun _ => quiet_bind (quiet_refuseIf rfl) fun _ => ?_
    refine quiet_bind (quiet_raiseIf f _) fun _ => quiet_bind (quiet_refuseIf rfl) fun _ => ?_
    exact quiet_bind (quiet_raiseIf f _) fun _ => quiet_pure _
  · refine quiet_bind (quiet_raiseIf f _) fun _ => ?_
    split
    · exact quiet_throw rfl
    · refine quiet_bind (quiet_refuseIf rfl) fun _ => quiet_bind (quiet_refuseIf rfl) fun _ => ?_
      exact quiet_bind (quiet_raiseIf f _) fun _ => quiet_pure _

theorem quiet_countRemoved (t : Tables) (user : ℕ) : Quiet (countRemoved f t user) :=
  quiet_bind (quiet_raiseIf f _) fun _ => quiet_bind (quiet_raiseIf f _) fun _ =>
    quiet_bind (quiet_raiseIf f _) fun _ => quiet_bind (quiet_raiseIf f _) fun _ => quiet_pure _

theorem quiet_resetTarget (t : Tables) (user : User) : Quiet (resetTarget site f t user) :=
  quiet_bind (quiet_raiseIf f _) fun _ => quiet_bind (quiet_raiseIf f _) fun _ =>
    quiet_bind (quiet_raiseIf f _) fun _ => quiet_bind (quiet_raiseIf f _) fun _ =>
    quiet_bind (quiet_raiseIf f _) fun _ => quiet_bind (quiet_raiseIf f _) fun _ => quiet_pure _

theorem quiet_transaction (recipient : Option Recipient) (t : Tables) :
    Quiet (transaction site f r recipient t) := by
  refine quiet_bind (quiet_raiseIf f _) fun _ => quiet_bind (quiet_raiseIf f _) fun _ => ?_
  refine quiet_bind (quiet_selectTarget site f r t) fun x => ?_
  refine quiet_bind (quiet_countRemoved f _ _) fun _ => quiet_bind (quiet_resetTarget site f _ _) fun _ => ?_
  refine quiet_bind (quiet_raiseIf f _) fun _ => quiet_bind ?_ fun _ => ?_
  · unfold checkUrl
    split
    · exact quiet_throw rfl
    · exact quiet_refuseIf rfl
  refine quiet_bind (quiet_raiseIf f _) fun _ => quiet_bind (quiet_raiseIf f _) fun _ => ?_
  split
  · exact quiet_pure _
  · dsimp only
    split
    · exact quiet_pure _
    · exact quiet_throw rfl

end Quiet

section Files
variable (f : Faults)

/-- What has been handed to the stream. -/
def Output.content (o : Output) : Text := o.written ++ o.buffer

theorem Output.drain_content (s : Step) (o : Output) : (o.drain f s).2.content = o.content := by
  unfold Output.drain Output.content
  split_ifs
  · simp
  · simp

theorem Output.drain_ok {s : Step} {o : Output} (h : f.fails s = false) :
    o.drain f s = (.ok (), { o with written := o.content, buffer := [] }) := by
  simp [Output.drain, Output.content, h]

theorem Output.drain_error {s : Step} {o : Output} (h : f.fails s = true) :
    (o.drain f s).1 = .error .other := by
  simp [Output.drain, h]

/-- Stored whole, or a part of it with an error. -/
theorem Output.store_cases (t : Text) :
    (∃ e o, Output.empty.store f t = (.error e, o) ∧ o.content <+: t ++ [10]) ∨
      Output.empty.store f t = (.ok (), ⟨t ++ [10], [], true⟩) := by
  by_cases hdump : f.fails .dump = true
  · refine Or.inl ⟨.other, _, by simp [Output.store, Output.put, hdump, Output.andThen]; rfl, ?_⟩
    simpa [Output.content, Output.empty] using (List.take_prefix _ t).trans (List.prefix_append t [10])
  by_cases hwrite : f.fails .write = true
  · refine Or.inl ⟨.other, _, by simp [Output.store, Output.put, hdump, hwrite, Output.andThen]; rfl, ?_⟩
    simpa [Output.content, Output.empty] using List.take_prefix _ [10]
  by_cases hflush : f.fails .flush = true
  · refine Or.inl ⟨.other, _,
      by simp [Output.store, Output.put, hdump, hwrite, Output.drain, hflush, Output.andThen]; rfl, ?_⟩
    simp [Output.content, Output.empty]
  by_cases hsync : f.fails .fsync = true
  · refine Or.inl ⟨.other, _, by
      simp [Output.store, Output.put, hdump, hwrite, Output.drain, hflush, Output.sync, hsync,
        Output.andThen]
      rfl, ?_⟩
    simp [Output.content, Output.empty]
  · refine Or.inr ?_
    simp [Output.store, Output.put, hdump, hwrite, Output.drain, hflush, Output.sync, hsync,
      Output.andThen, Output.empty]

end Files

section Outcomes
variable {site : Site} {f : Faults} {r : Request} {w : World}

/-- A new row, or another password in an old one. -/
theorem ResetDone.ne {before after : Tables} (hfresh : ∀ u ∈ before.users, u.password ≠ site.newPassword)
    (h : ResetDone site r before after) : after ≠ before := by
  intro heq
  cases h with
  | bootstrap hmode hnone =>
    have hlength := congrArg (fun t => t.users.length) heq
    simp [Tables.reset] at hlength
  | recover user huser hname hemail hhuman =>
    have husers : before.users.map _ = before.users := congrArg Tables.users heq
    have hrow := List.map_inj_left.mp (husers.trans (List.map_id _).symm) user huser
    rw [if_pos rfl] at hrow
    exact hfresh user huser (congrArg User.password hrow).symm

/-- Before the output is reserved nothing is changed. -/
theorem applyAccess_cases (site : Site) (f : Faults) (r : Request) (w : World) :
    (∃ e w', applyAccess site f r w = (.error e, w') ∧ e.saysCommitted = false ∧ w'.tables = w.tables ∧
      (w'.output = w.output ∨ w'.output = some .empty) ∧ ¬ Commits site f r w.tables) ∨
    ∃ recipient, prepare site f r = .ok recipient ∧ reserveOutput site f = .ok () ∧
      f.fails .fchmod = false ∧ f.fails .fdopen = false ∧
      applyAccess site f r w =
        closeOutput f (guarded site f r recipient { w with output := some .empty } .empty) := by
  unfold applyAccess
  rcases hprepare : prepare site f r with e | recipient
  · refine Or.inl ⟨e, w, rfl, quiet_prepare site f r e hprepare, rfl, Or.inl rfl, ?_⟩
    rintro ⟨recipient, p, h, -⟩
    exact nomatch hprepare.symm.trans h
  rcases hreserve : reserveOutput site f with e | _
  · refine Or.inl ⟨e, w, rfl, quiet_reserveOutput site f e hreserve, rfl, Or.inl rfl, ?_⟩
    rintro ⟨recipient, p, -, h, -⟩
    exact nomatch hreserve.symm.trans h
  by_cases hopen : f.fails .fchmod = true ∨ f.fails .fdopen = true
  · refine Or.inl ⟨.other, { w with output := some .empty }, if_pos hopen, rfl, rfl, Or.inr rfl, ?_⟩
    rintro ⟨recipient, p, -, -, hchmod, hfdopen, -⟩
    simp [hchmod, hfdopen] at hopen
  · refine Or.inr ⟨recipient, rfl, rfl, ?_, ?_, if_neg hopen⟩
    · simpa using fun h => hopen (Or.inl h)
    · simpa using fun h => hopen (Or.inr h)

/-- Either the transaction is not known to be committed, or it is and the rest follows. -/
theorem guarded_cases (site : Site) (f : Faults) (r : Request) (recipient : Option Recipient) (w : World)
    (o : Output) :
    (∃ e w', guarded site f r recipient w o = (.error e, w') ∧ e.saysCommitted = false ∧
      ((∀ applied, f.commit ≠ .unknown applied) → w'.tables = w.tables) ∧ w'.output = w.output ∧
      ¬ (∃ p, transaction site f r recipient w.tables = .ok p ∧ f.commit = .done)) ∨
    ∃ p, transaction site f r recipient w.tables = .ok p ∧ f.commit = .done ∧
      guarded site f r recipient w o = afterCommit site f r p { w with tables := p.tables } o := by
  unfold guarded
  rcases htransaction : transaction site f r recipient w.tables with (e | _) | p
  · refine Or.inl ⟨.access e, w, rfl, quiet_transaction site f r recipient _ _ htransaction, fun _ => rfl,
      rfl, ?_⟩
    rintro ⟨p, h, -⟩
    cases h
  · refine Or.inl ⟨.access .unconfirmed, w, rfl, rfl, fun _ => rfl, rfl, ?_⟩
    rintro ⟨p, h, -⟩
    cases h
  rcases hcommit : f.commit with _ | _ | applied
  · exact Or.inr ⟨p, rfl, rfl, rfl⟩
  · refine Or.inl ⟨.access .unconfirmed, w, rfl, rfl, fun _ => rfl, rfl, ?_⟩
    rintro ⟨-, -, h⟩
    cases h
  · refine Or.inl ⟨.access .unconfirmed, _, rfl, rfl, fun h => absurd rfl (h applied), ?_, ?_⟩
    · split_ifs
      · rfl
      · rfl
    · rintro ⟨-, -, h⟩
      cases h

/-- After the commit the outcome says how far the artifact and the event came. -/
theorem afterCommit_cases (site : Site) (f : Faults) (r : Request) (p : Prepared) (w : World) :
    (∃ o, afterCommit site f r p w .empty = (.error (.access .artifactFailed), { w with output := some o }) ∧
      o.content <+: site.dump r.recipientPublicKey.isSome p.output ++ [10]) ∨
    ∃ w', (w'.tables = w.tables ∧ Complete site r p.output w') ∧
      (afterCommit site f r p w .empty = (.error (.access .auditFailed), w') ∨
      afterCommit site f r p w .empty = (.ok ⟨p.artifact.target, p.artifact.removed,
        if r.sealedStdout then some p.output else none⟩, w') ∧ w'.posted = p.event :: w.posted) := by
  unfold afterCommit
  rcases Output.store_cases f (site.dump r.recipientPublicKey.isSome p.output) with
    ⟨e, o, hstore, hcontent⟩ | hstore
  · refine Or.inl ⟨o, ?_, hcontent⟩
    rw [hstore]
  · right
    rw [hstore]
    dsimp only
    by_cases hpost : f.fails .post = true
    · refine ⟨_, ?_, Or.inl (if_pos hpost)⟩
      exact ⟨rfl, rfl⟩
    · refine ⟨_, ?_, Or.inr ⟨if_neg hpost, ?_⟩⟩
      · exact ⟨rfl, rfl⟩
      · rfl

/-- The outcome of the `try` block is truthful. -/
theorem guarded_truthful (site : Site) (f : Faults) (r : Request) (recipient : Option Recipient) (w : World) :
    Truthful site f r w (guarded site f r recipient { w with output := some .empty } .empty) := by
  rcases guarded_cases site f r recipient { w with output := some .empty } .empty with
    ⟨e, w', heq, hquiet, htables, -, -⟩ | ⟨p, hp, hcommit, heq⟩
  · rw [heq]
    refine ⟨fun _ _ _ hknown => htables hknown, ?_, ?_, nofun⟩
    · rintro h
      obtain rfl := Except.error.inj h
      cases hquiet
    · rintro h
      obtain rfl := Except.error.inj h
      cases hquiet
  · have hdone : ResetDone site r w.tables p.tables := (transaction_ok hp).1
    rw [heq]
    rcases afterCommit_cases site f r p { w with output := some .empty, tables := p.tables } with
      ⟨o, hfailed, -⟩ | ⟨w', ⟨htables, hcomplete⟩, hfailed | ⟨hreturned, hposted⟩⟩
    · rw [hfailed]
      refine ⟨?_, fun _ => hdone, nofun, nofun⟩
      rintro e h hquiet
      obtain rfl := Except.error.inj h
      cases hquiet
    · rw [hfailed]
      refine ⟨?_, nofun, fun _ => ⟨htables ▸ hdone, p.output, hcomplete⟩, nofun⟩
      rintro e h hquiet
      obtain rfl := Except.error.inj h
      cases hquiet
    · rw [hreturned]
      exact ⟨nofun, nofun, nofun, fun _ _ => ⟨htables ▸ hdone, ⟨p.output, hcomplete⟩, p.event, hposted⟩⟩

/-- A close that succeeds keeps the outcome and the artifact. -/
theorem Truthful.closeOutput {x : Except Raised Result × World} (hclose : f.fails .close = false)
    (h : Truthful site f r w x) : Truthful site f r w (closeOutput f x) := by
  unfold Recovery.closeOutput
  rcases houtput : x.2.output with _ | o
  · exact h
  dsimp only
  rw [Output.drain_ok f hclose]
  dsimp only
  -- a complete file has nothing left to drain
  have hcomplete : (∃ doc, Complete site r doc x.2) → ∃ doc, Complete site r doc
      { x.2 with output := some { o with written := o.content, buffer := [] } } := by
    rintro ⟨doc, hdoc⟩
    obtain rfl := Option.some.inj (houtput.symm.trans hdoc)
    exact ⟨doc, by simp [Complete, Output.content]⟩
  refine ⟨h.unchanged, h.artifactFailed, fun hx => ?_, fun result hx => ?_⟩
  · exact ⟨(h.auditFailed hx).1, hcomplete (h.auditFailed hx).2⟩
  · obtain ⟨hdone, hdoc, hposted⟩ := h.returned result hx
    exact ⟨hdone, hcomplete hdoc, hposted⟩

/-- A close that fails leaves an error without a phase. -/
theorem closeOutput_error {x : Except Raised Result × World} (hclose : f.fails .close = true)
    (hx : x.2.output ≠ none) :
    (closeOutput f x).1 = .error .other ∧ (closeOutput f x).2.tables = x.2.tables := by
  unfold closeOutput
  obtain ⟨o, ho⟩ := Option.ne_none_iff_exists'.mp hx
  rw [ho]
  simp [Output.drain, hclose]

end Outcomes

section Secrecy
variable {site : Site} {f : Faults} {r : Request} {w : World}

/-- A document sealed to the recipient of the request. -/
def IsSealed (site : Site) (f : Faults) (r : Request) (doc : Json) : Prop :=
  ∃ key a, prepare site f r = .ok (some key) ∧ Recipient.seal site.toLibrary key a = some doc

/-- The same deployment with other setup URLs. -/
def Site.withUrls (site : Site) (url : User → Text) : Site := { site with resetUrl := url }

/-- The other URLs pass the same checks and are sealed to the same envelopes. -/
structure SameSeals (site : Site) (url : User → Text) : Prop where
  check : ∀ u, checkUrl site (url u) = checkUrl site (site.resetUrl u)
  envelope : ∀ u (key : Recipient) (a : Artifact), key.seal site.toLibrary { a with setupUrl := url u } =
    key.seal site.toLibrary { a with setupUrl := site.resetUrl u }

/-- Where the setup URL can show: in the envelope only. -/
structure Confined (site : Site) (f : Faults) (r : Request) (w : World)
    (x : Except Raised Result × World) : Prop where
  file : ∀ o, x.2.output = some o → w.output = some o ∨ o.content = [] ∨
    ∃ doc, IsSealed site f r doc ∧ o.content <+: site.dump true doc ++ [10]
  result : ∀ result doc, x.1 = .ok result → result.sealed = some doc → IsSealed site f r doc
  /-- The envelope is all that the outcome takes from the URL. -/
  envelope : ∀ url, SameSeals site url → applyAccess (site.withUrls url) f r w = x

theorem prepare_some (h : r.recipientPublicKey.isSome) {recipient : Option Recipient}
    (hprepare : prepare site f r = .ok recipient) : ∃ key, recipient = some key := by
  unfold prepare at hprepare
  obtain ⟨-, -, hprepare⟩ := bind_eq_ok.mp hprepare
  obtain ⟨-, -, hprepare⟩ := bind_eq_ok.mp hprepare
  obtain ⟨-, -, hprepare⟩ := bind_eq_ok.mp hprepare
  obtain ⟨-, -, hprepare⟩ := bind_eq_ok.mp hprepare
  obtain ⟨-, -, hprepare⟩ := bind_eq_ok.mp hprepare
  split at hprepare
  · split at hprepare
    · next key _ => exact ⟨key, (Except.ok.inj hprepare).symm⟩
    · cases hprepare
  · next hnone => simp [hnone] at h

/-- What is left of a transaction outside the artifact's URL. -/
def Prepared.visible (p : Prepared) : Tables × Event × Target × Removed × Json :=
  (p.tables, p.event, p.artifact.target, p.artifact.removed, p.output)

theorem map_bind_congr {α β γ : Type} {x : Except Raised α} {g g' : α → Except Raised β} {h : β → γ}
    (hg : ∀ a, (g a).map h = (g' a).map h) : (x >>= g).map h = (x >>= g').map h := by
  rcases x with e | a
  · rfl
  · exact hg a

theorem transaction_withUrls {url : User → Text} (hurl : SameSeals site url) (key : Recipient)
    (t : Tables) :
    (transaction (site.withUrls url) f r (some key) t).map Prepared.visible =
      (transaction site f r (some key) t).map Prepared.visible := by
  refine map_bind_congr fun _ => map_bind_congr fun _ => ?_
  refine map_bind_congr fun selected => ?_
  obtain ⟨base, user, action, previous⟩ := selected
  refine map_bind_congr fun removed => map_bind_congr fun tables => map_bind_congr fun _ => ?_
  have hcheck := hurl.check { user with password := site.newPassword }
  have hseal := hurl.envelope { user with password := site.newPassword } key
    ⟨r.mode, ⟨user.pk, user.username, user.email⟩, r.reason, removed, [], site.expires⟩
  change ((checkUrl site (url { user with password := site.newPassword })) >>= _).map _ = _
  rw [hcheck]
  refine map_bind_congr fun _ => map_bind_congr fun _ => map_bind_congr fun _ => ?_
  dsimp only at hseal ⊢
  have hsealed : key.seal (site.withUrls url).toLibrary ⟨r.mode, ⟨user.pk, user.username, user.email⟩, r.reason,
      removed, (site.withUrls url).resetUrl { user with password := (site.withUrls url).newPassword },
      (site.withUrls url).expires⟩ = _ := hseal
  rw [hsealed]
  rcases key.seal site.toLibrary ⟨r.mode, ⟨user.pk, user.username, user.email⟩, r.reason, removed,
    site.resetUrl { user with password := site.newPassword }, site.expires⟩ with _ | envelope
  · rfl
  · rfl

/-- Nothing of the artifact but its target, its counts and its envelope is used afterwards. -/
theorem guarded_withUrls {url : User → Text} (hurl : SameSeals site url) (key : Recipient) (o : Output) :
    guarded (site.withUrls url) f r (some key) w o = guarded site f r (some key) w o := by
  have hsame := transaction_withUrls (f := f) (r := r) hurl key w.tables
  unfold guarded
  generalize transaction (site.withUrls url) f r (some key) w.tables = x at hsame
  generalize transaction site f r (some key) w.tables = y at hsame
  rcases x with e | p
  · rcases y with e' | p'
    · obtain rfl := Except.error.inj hsame
      rfl
    · cases hsame
  · rcases y with e' | p'
    · cases hsame
    · obtain ⟨tables, event, artifact, output⟩ := p
      obtain ⟨tables', event', artifact', output'⟩ := p'
      simp only [Except.map, Prepared.visible, Except.ok.injEq, Prod.mk.injEq] at hsame
      obtain ⟨rfl, rfl, htarget, hremoved, rfl⟩ := hsame
      unfold afterCommit
      simp only [htarget, hremoved]
      rfl

theorem applyAccess_withUrls (hkey : r.recipientPublicKey.isSome) {url : User → Text}
    (hurl : SameSeals site url) : applyAccess (site.withUrls url) f r w = applyAccess site f r w := by
  unfold applyAccess
  have hsame : prepare (site.withUrls url) f r = prepare site f r := rfl
  rw [hsame]
  rcases hprepare : prepare site f r with e | recipient
  · rfl
  · obtain ⟨key, rfl⟩ := prepare_some hkey hprepare
    dsimp only
    rw [guarded_withUrls hurl]
    rfl

theorem closeOutput_content {x : Except Raised Result × World} {o : Output}
    (h : (closeOutput f x).2.output = some o) : ∃ o', x.2.output = some o' ∧ o.content = o'.content := by
  unfold closeOutput at h
  rcases hx : x.2.output with _ | o'
  · simp [hx] at h
  · refine ⟨o', rfl, ?_⟩
    rw [hx] at h
    by_cases hclose : f.fails .close = true
    · simp only [Output.drain, hclose] at h
      obtain rfl := Option.some.inj h
      simp [Output.content]
    · simp only [Output.drain, hclose] at h
      obtain rfl := Option.some.inj h
      simp [Output.content]

/-- In the `try` block the stream gets a prefix of the printed envelope. -/
theorem guarded_file {recipient : Option Recipient} (hkey : r.recipientPublicKey.isSome)
    (hprepare : prepare site f r = .ok recipient) {o : Output}
    (ho : (guarded site f r recipient { w with output := some .empty } .empty).2.output = some o) :
    o.content = [] ∨ ∃ doc, IsSealed site f r doc ∧ o.content <+: site.dump true doc ++ [10] := by
  obtain ⟨key, rfl⟩ := prepare_some hkey hprepare
  rcases guarded_cases site f r (some key) { w with output := some .empty } .empty with
    ⟨e, w', heq, -, -, houtput, -⟩ | ⟨p, hp, -, heq⟩
  · left
    rw [heq] at ho
    obtain rfl := Option.some.inj (houtput.symm.trans ho)
    rfl
  · right
    have hsealed : IsSealed site f r p.output := ⟨key, p.artifact, hprepare, (transaction_ok hp).2 key rfl⟩
    refine ⟨p.output, hsealed, ?_⟩
    rw [heq] at ho
    rcases afterCommit_cases site f r p { w with output := some .empty, tables := p.tables } with
      ⟨o', hfailed, hcontent⟩ | ⟨w', ⟨-, hcomplete⟩, hx⟩
    · rw [hfailed] at ho
      obtain rfl := Option.some.inj ho
      rwa [hkey] at hcontent
    · have houtput : w'.output = some o := by
        rcases hx with hx | ⟨hx, -⟩
        · rwa [hx] at ho
        · rwa [hx] at ho
      obtain rfl := Option.some.inj (hcomplete.symm.trans houtput)
      rw [hkey]
      simp [Output.content]

theorem closeOutput_ok {x : Except Raised Result × World} {result : Result}
    (h : (closeOutput f x).1 = .ok result) : x.1 = .ok result := by
  unfold closeOutput at h
  rcases hx : x.2.output with _ | o
  · rwa [hx] at h
  · rw [hx] at h
    by_cases hclose : f.fails .close = true
    · simp [Output.drain, hclose] at h
    · simpa [Output.drain, hclose] using h

theorem guarded_result {recipient : Option Recipient} (hkey : r.recipientPublicKey.isSome)
    (hprepare : prepare site f r = .ok recipient) {result : Result} {doc : Json}
    (h : (guarded site f r recipient { w with output := some .empty } .empty).1 = .ok result)
    (hdoc : result.sealed = some doc) : IsSealed site f r doc := by
  obtain ⟨key, rfl⟩ := prepare_some hkey hprepare
  rcases guarded_cases site f r (some key) { w with output := some .empty } .empty with
    ⟨e, w', heq, -⟩ | ⟨p, hp, -, heq⟩
  · rw [heq] at h
    cases h
  · rw [heq] at h
    rcases afterCommit_cases site f r p { w with output := some .empty, tables := p.tables } with
      ⟨o, hfailed, -⟩ | ⟨w', -, hfailed | ⟨hreturned, -⟩⟩
    · rw [hfailed] at h
      cases h
    · rw [hfailed] at h
      cases h
    · rw [hreturned] at h
      obtain rfl := Except.ok.inj h
      simp only [Option.ite_none_right_eq_some, Option.some.injEq] at hdoc
      obtain ⟨-, rfl⟩ := hdoc
      exact ⟨key, p.artifact, hprepare, (transaction_ok hp).2 key rfl⟩

theorem applyAccess_confined (site : Site) (f : Faults) {r : Request} (w : World)
    (hkey : r.recipientPublicKey.isSome) : Confined site f r w (applyAccess site f r w) := by
  rcases applyAccess_cases site f r w with ⟨e, w', heq, -, -, houtput, -⟩ | ⟨recipient, hprepare, -, -, -, heq⟩
  · refine ⟨fun o ho => ?_, fun result doc hx => ?_, fun url hurl => applyAccess_withUrls hkey hurl⟩
    · rw [heq] at ho
      rcases houtput with houtput | houtput
      · exact Or.inl (houtput.symm.trans ho)
      · obtain rfl := Option.some.inj (houtput.symm.trans ho)
        exact Or.inr (Or.inl rfl)
    · rw [heq] at hx
      cases hx
  · refine ⟨fun o ho => Or.inr ?_, fun result doc hx hdoc => ?_,
      fun url hurl => applyAccess_withUrls hkey hurl⟩
    · rw [heq] at ho
      obtain ⟨o', ho', hcontent⟩ := closeOutput_content ho
      rw [hcontent]
      exact guarded_file hkey hprepare ho'
    · rw [heq] at hx
      exact guarded_result hkey hprepare (closeOutput_ok hx) hdoc

end Secrecy

section Phase
variable {site : Site} {f : Faults} {r : Request} {w : World}

theorem guarded_output (site : Site) (f : Faults) (r : Request) (recipient : Option Recipient) (w : World) :
    (guarded site f r recipient { w with output := some .empty } .empty).2.output ≠ none := by
  rcases guarded_cases site f r recipient { w with output := some .empty } .empty with
    ⟨e, w', heq, -, -, houtput, -⟩ | ⟨p, -, -, heq⟩
  · simp [heq, houtput]
  · rw [heq]
    rcases afterCommit_cases site f r p { w with output := some .empty, tables := p.tables } with
      ⟨o, hfailed, -⟩ | ⟨w', ⟨-, hcomplete⟩, hfailed | ⟨hreturned, -⟩⟩
    · simp [hfailed]
    · unfold Complete at hcomplete
      simp [hfailed, hcomplete]
    · unfold Complete at hcomplete
      simp [hreturned, hcomplete]

theorem applyAccess_truthful (hcondition : ¬ (f.fails .close = true ∧ Commits site f r w.tables)) :
    Truthful site f r w (applyAccess site f r w) := by
  -- an outcome that has no phase to report
  have hquiet : ∀ e (w' : World), e.saysCommitted = false →
      ((∀ applied, f.commit ≠ .unknown applied) → w'.tables = w.tables) →
      Truthful site f r w (.error e, w') := by
    intro e w' he htables
    refine ⟨fun _ _ _ hknown => htables hknown, fun h => ?_, fun h => ?_, nofun⟩
    · obtain rfl := Except.error.inj h
      cases he
    · obtain rfl := Except.error.inj h
      cases he
  rcases applyAccess_cases site f r w with ⟨e, w', heq, he, htables, -, -⟩ |
    ⟨recipient, hprepare, hreserve, hchmod, hfdopen, heq⟩
  · rw [heq]
    exact hquiet e w' he fun _ => htables
  rw [heq]
  by_cases hclose : f.fails .close = true
  · rcases guarded_cases site f r recipient { w with output := some .empty } .empty with
      ⟨e, w', hguarded, -, htables, -, -⟩ | ⟨p, hp, hcommit, -⟩
    · obtain ⟨hother, hkept⟩ := closeOutput_error hclose (guarded_output site f r recipient w)
      rw [hguarded] at hkept hother ⊢
      have hpair : closeOutput f (.error e, w') = (.error .other, (closeOutput f (.error e, w')).2) :=
        Prod.ext hother rfl
      rw [hpair]
      exact hquiet .other _ rfl fun hknown => hkept.trans (htables hknown)
    · exact absurd ⟨hclose, recipient, p, hprepare, hreserve, hchmod, hfdopen, hp, hcommit⟩ hcondition
  · exact (guarded_truthful site f r recipient w).closeOutput (by simpa using hclose)

/-- After the commit a close that fails leaves no word of it. -/
theorem not_truthful_of_close (hfresh : ∀ u ∈ w.tables.users, u.password ≠ site.newPassword)
    (hclose : f.fails .close = true) (hcommits : Commits site f r w.tables) :
    ¬ Truthful site f r w (applyAccess site f r w) := by
  intro h
  obtain ⟨recipient, p, hprepare, hreserve, hchmod, hfdopen, hp, hcommit⟩ := hcommits
  have heq : applyAccess site f r w =
      closeOutput f (guarded site f r recipient { w with output := some .empty } .empty) := by
    simp [applyAccess, hprepare, hreserve, hchmod, hfdopen]
  have hguarded : (guarded site f r recipient { w with output := some .empty } .empty).2.tables = p.tables := by
    rcases guarded_cases site f r recipient { w with output := some .empty } .empty with
      ⟨-, -, -, -, -, -, hnot⟩ | ⟨p', hp', -, hguarded⟩
    · exact absurd ⟨p, hp, hcommit⟩ hnot
    obtain rfl := Except.ok.inj (hp'.symm.trans hp)
    rw [hguarded]
    rcases afterCommit_cases site f r p' { w with output := some .empty, tables := p'.tables } with
      ⟨o, hfailed, -⟩ | ⟨w', ⟨htables, -⟩, hfailed | ⟨hreturned, -⟩⟩
    · rw [hfailed]
    · rw [hfailed, htables]
    · rw [hreturned, htables]
  obtain ⟨hother, hkept⟩ := closeOutput_error hclose (guarded_output site f r recipient w)
  have hsame := h.unchanged .other (heq ▸ hother) rfl (by simp [hcommit])
  rw [heq, hkept, hguarded] at hsame
  exact (transaction_ok hp).1.ne hfresh hsame

end Phase

section Deployment

def setupUrl : Text :=
  text "https://santa.example/accounts/reset/Mw/c1f2g3-0123456789abcdef0123456789abcdef/"

/-- A deployment without a recipient. -/
def localSite : Site where
  sha _ := []
  urlsplit s :=
    if s = setupUrl then
      some ⟨text "https", text "santa.example", s.drop 21, [], [], some (text "santa.example"), none, none,
        some none⟩
    else none
  loadKey _ := none
  aesGcm _ _ _ _ := []
  dataKey _ := []
  nonce _ := []
  room := 900
  identityValid _ _ := true
  resetTimeout := resetSeconds
  apiBaseUrl := text "https://santa.example"
  pathValid := true
  iexact := (· = ·)
  newUser username email := ⟨4, username, email, true, false, false, true, []⟩
  newPassword := text "pbkdf2_sha256$870000$f00d$c0ffee"
  resetUrl _ := setupUrl
  expires := .float (text "1767225600.5")
  dump _ _ := text "\x7b\x7d"

def recovery : Request where
  mode := text "recover"
  username := text "ada"
  email := text "ada@santa.example"
  reason := text "lost key"
  recipientPublicKey := none
  contextSha256 := none
  sealedStdout := false

def operator : User :=
  ⟨3, text "ada", text "ada@santa.example", true, false, false, true, text "pbkdf2_sha256$870000$beef$cafe"⟩

def oneOperator : World where
  tables := ⟨[operator], [⟨1, 3⟩], [], [], []⟩
  output := none
  posted := []

/-- Only these steps raise. -/
def failing (steps : List Step) : Faults := ⟨fun s => s ∈ steps, .done, fun _ => 0⟩

end Deployment
end Recovery

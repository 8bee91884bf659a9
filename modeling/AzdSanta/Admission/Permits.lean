import AzdSanta.Admission.Runs

/-! Any number of processes running the admission middleware against one store. Script
evaluations are messages: sent once, evaluated at most once, possibly lost before
they take effect or with only their reply lost, and possibly evaluated long after
the sender gave up or died. -/
namespace Admission
open Redis SecurityStore Checks

structure Permit where
  slot : Bytes
  token : Token
  deriving DecidableEq

inductive Outcome where
  /-- `rejected(status, retry)`. -/
  | rejected (status : ℕ) (retryAfter : ℤ)
  | response
  | raised
  | died

inductive Phase where
  /-- Waiting for the reply to `ACQUIRE`. -/
  | acquiring
  /-- `get_response` is running. -/
  | executing (permit : Permit)
  /-- The handler has ended; waiting for the reply to `RELEASE`. -/
  | releasing (raised : Bool)
  | finished (outcome : Outcome)

/-- One `Admission.__call__` on a sync path. -/
structure Request where
  process : ℕ
  token : Token
  phase : Phase
  acquireMsg : Flight (Bytes × Bytes) Reply
  releaseMsg : Flight Permit Reply

inductive HandlerEnd where
  | returned
  | streaming
  | raised

inductive ClientEvent where
  | acquireReply
  | acquireFailed
  | handlerEnds (ending : HandlerEnd)
  | releaseReply
  | releaseFailed
  | acquireLost
  | releaseLost

def rejected (window status : ℕ) (retry : ℤ) : Outcome :=
  .rejected status (max 1 (min window retry))

/-- What `__call__` does with the reply to `ACQUIRE`. -/
def afterAcquire (window : ℕ) (token : Token) : Except Error Reply → Phase
  | .ok (.rejected retry) => .finished (rejected window 429 retry)
  | .ok (.granted slot) =>
    if slot = ['0'] then .executing ⟨slot, token⟩ else .finished (rejected window 503 1)
  | .ok (.number _) | .error _ => .finished (rejected window 503 1)

/-- A returned or raised handler releases; a streaming response keeps the slot. -/
def Request.afterHandler (window : ℕ) (r : Request) (permit : Permit) : HandlerEnd → Request
  | .returned => { r with phase := .releasing false, releaseMsg := .sent permit }
  | .raised => { r with phase := .releasing true, releaseMsg := .sent permit }
  | .streaming => { r with phase := .finished (rejected window 503 1) }

/-- An exception is re-raised whatever the release did; a response needs reply 1. -/
def afterRelease (window : ℕ) : Bool → Except Error Reply → Outcome
  | true, _ => .raised
  | false, .ok (.number 1) => .response
  | false, _ => rejected window 503 1

/-- The steps of one request that leave the store alone. -/
def Request.next (window : ℕ) (r : Request) : ClientEvent → Request
  | .acquireReply =>
    match r.phase, r.acquireMsg with
    | .acquiring, .replied reply => { r with phase := afterAcquire window r.token reply }
    | _, _ => r
  | .acquireFailed =>
    match r.phase with
    | .acquiring => { r with phase := .finished (rejected window 503 1) }
    | _ => r
  | .handlerEnds ending =>
    match r.phase with
    | .executing permit => r.afterHandler window permit ending
    | _ => r
  | .releaseReply =>
    match r.phase, r.releaseMsg with
    | .releasing raised, .replied reply =>
      { r with phase := .finished (afterRelease window raised reply) }
    | _, _ => r
  | .releaseFailed =>
    match r.phase with
    | .releasing raised =>
      { r with phase := .finished (if raised then .raised else rejected window 503 1) }
    | _ => r
  | .acquireLost =>
    match r.acquireMsg with
    | .sent _ => { r with acquireMsg := .lost }
    | _ => r
  | .releaseLost =>
    match r.releaseMsg with
    | .sent _ => { r with releaseMsg := .lost }
    | _ => r

/-- Requests are numbered by arrival. -/
structure System where
  store : Store Key
  running : List ℕ
  requests : List Request

inductive Action where
  | boot (process : ℕ)
  | crash (process : ℕ)
  | arrive (process : ℕ) (identity : Option (Bytes × Bytes)) (token : Token)
  | client (request : ℕ) (event : ClientEvent)
  | evalAcquire (request : ℕ)
  | evalRelease (request : ℕ)
  | reconcile (generation : Generation)
  | advance (ms : ℕ)

/-- A request whose identity is refused is answered without touching the store. -/
def newRequest (window process : ℕ) (token : Token) : Option (Bytes × Bytes) → Request
  | none => ⟨process, token, .finished (rejected window 503 1), .unsent, .unsent⟩
  | some identity => ⟨process, token, .acquiring, .sent identity, .unsent⟩

def Request.live (r : Request) : Bool :=
  match r.phase with
  | .finished _ => false
  | _ => true

/-- The permit of a running `get_response`. -/
def Request.handler (r : Request) : Option Permit :=
  match r.phase with
  | .executing permit => some permit
  | _ => none

def Request.die (process : ℕ) (r : Request) : Request :=
  if r.live ∧ r.process = process then { r with phase := .finished .died } else r

/-- Nothing is between the start and the end of `__call__`. -/
def System.quiet (σ : System) : Bool := σ.requests.all fun r => !r.live

/-- One step of the whole system; an action that is not enabled changes nothing.
Tokens are assumed distinct, and `reconcile` waits until no call is in progress:
`Runtime.reconcile_admission` starts it only after every process has stopped. -/
def System.step (site : Site) (σ : System) : Action → System
  | .boot process => { σ with running := process :: σ.running }
  | .crash process =>
    { σ with
      running := σ.running.filter (· ≠ process)
      requests := σ.requests.map (Request.die process) }
  | .arrive process identity token =>
    if process ∈ σ.running ∧ token ∉ σ.requests.map Request.token then
      { σ with requests := σ.requests ++ [newRequest site.config.window process token identity] }
    else σ
  | .client i event =>
    match σ.requests[i]? with
    | some r => { σ with requests := σ.requests.set i (r.next site.config.window event) }
    | none => σ
  | .evalAcquire i =>
    match σ.requests[i]? with
    | some ⟨process, token, phase, .sent (source, credential), releaseMsg⟩ =>
      let r := (eval site (acquire site source credential token)).run σ.store
      { σ with
        store := r.2
        requests := σ.requests.set i ⟨process, token, phase, .replied r.1, releaseMsg⟩ }
    | _ => σ
  | .evalRelease i =>
    match σ.requests[i]? with
    | some ⟨process, token, phase, acquireMsg, .sent permit⟩ =>
      let r := (eval site (release site permit.slot permit.token)).run σ.store
      { σ with
        store := r.2
        requests := σ.requests.set i ⟨process, token, phase, acquireMsg, .replied r.1⟩ }
    | _ => σ
  | .reconcile generation =>
    if σ.quiet then { σ with store := ((eval site (reconcile site generation)).run σ.store).2 }
    else σ
  | .advance ms => { σ with store := σ.store.advance ms }

/-- The system after `actions`, newest first. -/
def System.after (site : Site) (start : Store Key) : List Action → System
  | [] => ⟨start, [], []⟩
  | action :: earlier => (System.after site start earlier).step site action

/-- The permits of the handlers that are executing now. -/
def System.handlers (σ : System) : List Permit := σ.requests.filterMap Request.handler

/-- The handler is over: it returned, raised, streamed, died or never ran. -/
def Request.ended (r : Request) : Prop := r.phase ≠ .acquiring ∧ r.handler = none

/-- What holds of each request against the slots of the store. -/
structure Request.Ok (h : Fields) (running : List ℕ) (r : Request) : Prop where
  process : r.live → r.process ∈ running
  permit : ∀ permit, r.handler = some permit →
    permit = ⟨['0'], r.token⟩ ∧ h.lookup ['0'] = some r.token.val
  granted : r.phase = .acquiring → ∀ slot, r.acquireMsg = .replied (.ok (.granted slot)) →
    h.lookup slot = some r.token.val
  release : ∀ permit, r.releaseMsg = .sent permit → r.ended ∧ permit = ⟨['0'], r.token⟩

section Requests
variable {h h' : Fields} {running : List ℕ} {r : Request}

theorem Request.next_token (window : ℕ) (r : Request) (event : ClientEvent) :
    (r.next window event).token = r.token := by
  cases event with
  | handlerEnds ending =>
    simp only [Request.next]
    split
    · cases ending <;> rfl
    · rfl
  | _ =>
    simp only [Request.next]
    split <;> rfl

theorem Request.die_token (process : ℕ) (r : Request) : (r.die process).token = r.token := by
  unfold Request.die
  split <;> rfl

/-- A call that is over holds nothing. -/
theorem Request.ended_of_not_live (hl : ¬ r.live) : r.ended := by
  unfold Request.live at hl
  split at hl
  · next hp => simp [Request.ended, Request.handler, hp]
  · exact absurd rfl hl

/-- A request stays sound when the slot it holds, if any, is left alone. -/
theorem Request.Ok.congr (hr : r.Ok h running)
    (hkeep : ∀ slot, ¬ r.ended → h.lookup slot = some r.token.val →
      h'.lookup slot = some r.token.val) : r.Ok h' running where
  process := hr.process
  permit permit hp := by
    obtain ⟨hpermit, hlook⟩ := hr.permit permit hp
    refine ⟨hpermit, hkeep _ (fun he => ?_) hlook⟩
    simp [he.2] at hp
  granted hp slot hm := hkeep slot (fun he => he.1 hp) (hr.granted hp slot hm)
  release := hr.release

theorem Request.Ok.finished (hr : r.Ok h running) (outcome : Outcome) :
    ({ r with phase := .finished outcome } : Request).Ok h running where
  process hl := by cases hl
  permit permit hp := by cases hp
  granted hp := by cases hp
  release permit hm := ⟨⟨by simp, rfl⟩, (hr.release permit hm).2⟩

/-- Only a permit for slot 0 that the store really holds starts the handler. -/
theorem Request.Ok.acquired (hr : r.Ok h running) (window : ℕ) {reply : Except Error Reply}
    (hp : r.phase = .acquiring) (hm : r.acquireMsg = .replied reply) :
    ({ r with phase := afterAcquire window r.token reply } : Request).Ok h running := by
  have hlive : r.process ∈ running := hr.process (by simp [Request.live, hp])
  have hrel (permit : Permit) : r.releaseMsg ≠ .sent permit :=
    fun h => (hr.release permit h).1.1 hp
  unfold afterAcquire
  split
  · exact hr.finished _
  · next slot =>
    split
    · next hslot =>
      subst hslot
      refine ⟨fun _ => hlive, ?_, ?_, fun permit h => absurd h (hrel permit)⟩
      · intro permit hpermit
        exact ⟨(Option.some.inj hpermit).symm, hr.granted hp _ hm⟩
      · intro hphase
        cases hphase
    · exact hr.finished _
  · exact hr.finished _
  · exact hr.finished _

theorem Request.Ok.handlerEnds (hr : r.Ok h running) (window : ℕ) {permit : Permit}
    (hp : r.phase = .executing permit) (ending : HandlerEnd) :
    (r.afterHandler window permit ending).Ok h running := by
  have hlive : r.process ∈ running := hr.process (by simp [Request.live, hp])
  obtain ⟨rfl, -⟩ := hr.permit permit (by simp [Request.handler, hp])
  have hreleasing (raised : Bool) : ({ r with
      phase := .releasing raised
      releaseMsg := .sent ⟨['0'], r.token⟩ } : Request).Ok h running := by
    refine ⟨fun _ => hlive, (fun permit h => by cases h), (fun h => by cases h), ?_⟩
    intro permit hsent
    cases hsent
    exact ⟨⟨by simp, rfl⟩, rfl⟩
  cases ending with
  | returned => exact hreleasing false
  | raised => exact hreleasing true
  | streaming => exact hr.finished _

theorem Request.Ok.next (hr : r.Ok h running) (window : ℕ) (event : ClientEvent) :
    (r.next window event).Ok h running := by
  cases event with
  | acquireReply =>
    simp only [Request.next]
    split
    · next hp hm => exact hr.acquired window hp hm
    · exact hr
  | handlerEnds ending =>
    simp only [Request.next]
    split
    · next hp => exact hr.handlerEnds window hp ending
    · exact hr
  | acquireFailed | releaseReply | releaseFailed =>
    simp only [Request.next]
    split
    · exact hr.finished _
    · exact hr
  | acquireLost =>
    simp only [Request.next]
    split
    · exact ⟨hr.process, hr.permit, (fun _ _ hm => by cases hm), hr.release⟩
    · exact hr
  | releaseLost =>
    simp only [Request.next]
    split
    · exact ⟨hr.process, hr.permit, hr.granted, (fun _ hm => by cases hm)⟩
    · exact hr

theorem Request.Ok.die (hr : r.Ok h running) (process : ℕ) :
    (r.die process).Ok h (running.filter (· ≠ process)) := by
  unfold Request.die
  split
  · have hf := hr.finished .died
    exact ⟨(fun hl => by cases hl), hf.permit, hf.granted, hf.release⟩
  · next hdead =>
    refine ⟨fun hl => ?_, hr.permit, hr.granted, hr.release⟩
    exact List.mem_filter.mpr ⟨hr.process hl, by simpa using fun hp => hdead ⟨hl, hp⟩⟩

theorem newRequest_ok {process : ℕ} (hmem : process ∈ running) (window : ℕ) (token : Token)
    (identity : Option (Bytes × Bytes)) :
    (newRequest window process token identity).Ok h running := by
  cases identity <;>
  · refine ⟨fun _ => hmem, ?_, ?_, ?_⟩ <;> simp [newRequest, Request.handler]

end Requests

structure System.Inv (site : Site) (σ : System) : Prop where
  sound : Sound site σ.store
  distinct : (σ.requests.map Request.token).Nodup
  requests : ∀ r ∈ σ.requests, r.Ok (slots σ.store) σ.running

section Steps
variable {site : Site} {σ : System}

theorem System.Inv.token_inj (hinv : σ.Inv site) {r r' : Request} (hr : r ∈ σ.requests)
    (hr' : r' ∈ σ.requests) (ht : r.token = r'.token) : r = r' :=
  List.inj_on_of_nodup_map hinv.distinct hr hr' ht

/-- One request is replaced, the slots may change, and every request can account for it. -/
theorem System.Inv.replace (hinv : σ.Inv site) {i : ℕ} {r r' : Request} {store : Store Key}
    (hi : σ.requests[i]? = some r) (ht : r'.token = r.token) (hs : Sound site store)
    (hr' : r'.Ok (slots store) σ.running)
    (hothers : ∀ q ∈ σ.requests, q.Ok (slots store) σ.running) :
    ({ σ with store := store, requests := σ.requests.set i r' } : System).Inv site where
  sound := hs
  distinct := by
    have hmap : (σ.requests.set i r').map Request.token = σ.requests.map Request.token := by
      apply List.ext_getElem?
      intro j
      rw [List.map_set, List.getElem?_set, ht]
      split
      · next hij =>
        subst hij
        obtain ⟨hlt, rfl⟩ := List.getElem?_eq_some_iff.mp hi
        simp [hlt]
      · rfl
    simpa only [hmap] using hinv.distinct
  requests q hq := by
    rcases List.mem_or_eq_of_mem_set hq with hmem | rfl
    · exact hothers q hmem
    · exact hr'

theorem slots_admitted (site : Site) (s : Store Key) (source credential slot token : Bytes) :
    slots (admitted site s source credential slot token) = (slots s).insert slot token := by
  simp only [admitted, slots_withFields]
  rw [slots_bumped _ _ (by simp), slots_bumped _ _ (by simp), slots_bumped _ _ (by simp)]

/-- `ACQUIRE` fills one free slot and names it, or leaves the slots alone. -/
theorem acquire_slots (hb : site.config.Bounded) {s : Store Key} (hs : Sound site s)
    (source credential token : Bytes) :
    let r := (eval site (acquire site source credential token)).run s
    (slots r.2 = slots s ∧ ∀ slot, r.1 ≠ .ok (.granted slot)) ∨
    (r.1 = .ok (.granted ['0']) ∧ (slots s).lookup ['0'] = none ∧
      slots r.2 = (slots s).insert ['0'] token) := by
  intro r
  rcases eval_run site (acquire site source credential token) s with ⟨e, -, h⟩ | ⟨-, h⟩
  · left
    simp [r, h]
  have hout := acquire_outcome hb hs source credential token
  rw [← h] at hout
  change AcquireOutcome site s source credential token r at hout
  generalize r = result at hout
  cases hout with
  | saturated retry hg => simp
  | limited retry hg => exact Or.inl ⟨slots_bumped s _ (by simp), by simp⟩
  | granted i hg hsrc hcred hi hfree =>
    rw [tostring_slot hb hi] at hfree ⊢
    exact Or.inr ⟨rfl, hfree, slots_admitted ..⟩

/-- `RELEASE` empties slot 0 when it holds exactly the token sent, or does nothing. -/
theorem release_slots (hb : site.config.Bounded) {s : Store Key} (hs : Sound site s)
    (token : Bytes) :
    let r := (eval site (release site ['0'] token)).run s
    slots r.2 = slots s ∨
    ((slots s).lookup ['0'] = some token ∧ slots r.2 = (slots s).erase ['0']) := by
  intro r
  rcases eval_run site (release site ['0'] token) s with ⟨e, -, h⟩ | ⟨-, h⟩
  · left
    simp [r, h]
  have hrun := release_run hb hs 0 token
  rw [show Lua.tostring 0 = ['0'] from rfl, ← h] at hrun
  change r = _ at hrun
  rw [hrun]
  split
  · next hlook => exact Or.inr ⟨hlook, slots_withFields ..⟩
  · exact Or.inl rfl

/-- An evaluated message stays answered, and nothing else in the request changes. -/
theorem Request.Ok.acquireAnswered {h : Fields} {running : List ℕ} {process : ℕ} {token : Token}
    {phase : Phase} {message answer : Flight (Bytes × Bytes) Reply}
    {releaseMsg : Flight Permit Reply}
    (hr : (⟨process, token, phase, message, releaseMsg⟩ : Request).Ok h running)
    (hgranted : ∀ slot, answer = .replied (.ok (.granted slot)) → h.lookup slot = some token.val) :
    (⟨process, token, phase, answer, releaseMsg⟩ : Request).Ok h running :=
  ⟨hr.process, hr.permit, fun _ slot hm => hgranted slot hm, hr.release⟩

theorem System.Inv.evalAcquire (hb : site.config.Bounded) (hinv : σ.Inv site) (i : ℕ) :
    (σ.step site (.evalAcquire i)).Inv site := by
  simp only [System.step]
  split
  · next process token phase source credential releaseMsg hi =>
    have hsound := Step.sound hb hinv.sound (.issue (.acquire source credential token))
    have hmem := List.mem_of_getElem? hi
    rcases acquire_slots hb hinv.sound source credential token.val with
      ⟨hsame, hno⟩ | ⟨hreply, hfree, hins⟩
    · refine hinv.replace hi rfl hsound ?_ ?_
      · rw [hsame]
        exact (hinv.requests _ hmem).acquireAnswered
          fun slot hm => absurd (Flight.replied.inj hm) (hno slot)
      · rw [hsame]
        exact hinv.requests
    · have hkeep (q : Request) (hq : q ∈ σ.requests) :
          q.Ok ((slots σ.store).insert ['0'] token.val) σ.running := by
        refine (hinv.requests q hq).congr fun slot _ hlook => ?_
        rw [AList.lookup_insert_ne, hlook]
        rintro rfl
        simp [hfree] at hlook
      refine hinv.replace hi rfl hsound ?_ ?_
      · rw [hins]
        refine (hkeep _ hmem).acquireAnswered fun slot hm => ?_
        rw [hreply] at hm
        cases hm
        exact AList.lookup_insert _
      · rw [hins]
        exact hkeep
  · exact hinv

theorem System.Inv.evalRelease (hb : site.config.Bounded) (hinv : σ.Inv site) (i : ℕ) :
    (σ.step site (.evalRelease i)).Inv site := by
  simp only [System.step]
  split
  · next process token phase acquireMsg permit hi =>
    have hmem := List.mem_of_getElem? hi
    have hr := hinv.requests _ hmem
    obtain ⟨hended, hpermit⟩ := hr.release permit rfl
    change permit = ⟨['0'], token⟩ at hpermit
    subst hpermit
    have hsound := Step.sound hb hinv.sound (.issue (.release 0 token))
    have hkeep : ∀ q ∈ σ.requests, q.Ok
        (slots ((eval site (release site ['0'] token.val)).run σ.store).2) σ.running := by
      intro q hq
      rcases release_slots hb hinv.sound token.val with hsame | ⟨hheld, herase⟩
      · rw [hsame]
        exact hinv.requests q hq
      · -- Whoever still needs the slot holds it under another token.
        rw [herase]
        refine (hinv.requests q hq).congr fun slot hq' hlook => ?_
        rw [AList.lookup_erase_ne, hlook]
        rintro rfl
        rw [hheld, Option.some.injEq] at hlook
        have := hinv.token_inj hmem hq (Subtype.ext hlook)
        exact hq' (this ▸ hended)
    refine hinv.replace hi rfl hsound ?_ hkeep
    have hself := hkeep _ hmem
    exact ⟨hself.process, hself.permit, hself.granted, fun _ hm => by cases hm⟩
  · exact hinv

theorem System.Inv.step (hb : site.config.Bounded) (hinv : σ.Inv site) (action : Action) :
    (σ.step site action).Inv site := by
  cases action with
  | boot process =>
    refine ⟨hinv.sound, hinv.distinct, fun r hr => ?_⟩
    have hok := hinv.requests r hr
    exact ⟨fun hl => List.mem_cons_of_mem _ (hok.process hl), hok.permit, hok.granted, hok.release⟩
  | crash process =>
    refine ⟨hinv.sound, ?_, ?_⟩
    · have htok : Request.token ∘ Request.die process = Request.token :=
        funext (Request.die_token process)
      simpa only [System.step, List.map_map, htok] using hinv.distinct
    · intro r hr
      obtain ⟨q, hq, rfl⟩ := List.mem_map.mp hr
      exact (hinv.requests q hq).die process
  | arrive process identity token =>
    simp only [System.step]
    split
    · next henabled =>
      refine ⟨hinv.sound, ?_, ?_⟩
      · have htok : (newRequest site.config.window process token identity).token = token := by
          cases identity <;> rfl
        simpa [List.nodup_append, hinv.distinct, htok] using henabled.2
      · intro r hr
        rcases List.mem_append.mp hr with hr | hr
        · exact hinv.requests r hr
        · obtain rfl := List.mem_singleton.mp hr
          exact newRequest_ok henabled.1 ..
    · exact hinv
  | client i event =>
    simp only [System.step]
    split
    · next r hi =>
      exact hinv.replace hi (r.next_token ..) hinv.sound
        ((hinv.requests r (List.mem_of_getElem? hi)).next ..) hinv.requests
    · exact hinv
  | evalAcquire i => exact hinv.evalAcquire hb i
  | evalRelease i => exact hinv.evalRelease hb i
  | reconcile generation =>
    simp only [System.step]
    split
    · next hquiet =>
      refine ⟨Step.sound hb hinv.sound (.issue (.reconcile generation)), hinv.distinct, ?_⟩
      intro r hr
      have hdead : ¬ r.live := by simpa using List.all_eq_true.mp hquiet r hr
      exact (hinv.requests r hr).congr fun _ hl => absurd (Request.ended_of_not_live hdead) hl
    · exact hinv
  | advance ms =>
    refine ⟨hinv.sound.advance ms, hinv.distinct, ?_⟩
    simpa only [System.step, slots_advance hinv.sound] using hinv.requests

theorem System.after_inv (hb : site.config.Bounded) {start : Store Key} (hs : Sound site start)
    (actions : List Action) : (System.after site start actions).Inv site := by
  induction actions with
  | nil => exact ⟨hs, List.nodup_nil, by simp [System.after]⟩
  | cons action earlier ih => exact ih.step hb action

/-- With every process stopped, as `reconcile_admission` checks, no call is in progress. -/
theorem System.Inv.quiet_of_stopped (hinv : σ.Inv site) (hstop : σ.running = []) : σ.quiet := by
  refine List.all_eq_true.mpr fun r hr => ?_
  by_contra hlive
  have hproc := (hinv.requests r hr).process (by simpa using hlive)
  simp [hstop] at hproc

/-- The ways the slot holding `t` is emptied. -/
inductive System.FreedBy (σ : System) (slot t : Bytes) : Action → Prop
  /-- The release of the slot's only owner, whose handler has ended. -/
  | release (i : ℕ) (r : Request) (permit : Permit) (hi : σ.requests[i]? = some r)
      (hsent : r.releaseMsg = .sent permit) (hslot : permit.slot = slot)
      (htoken : permit.token.val = t) (howner : permit.token = r.token) (hended : r.ended)
      (honly : ∀ q ∈ σ.requests, q.token = r.token → q = r) :
      FreedBy σ slot t (.evalRelease i)
  | reconcile (generation : Generation) (hquiet : σ.quiet) :
      FreedBy σ slot t (.reconcile generation)

theorem System.Inv.freedBy (hb : site.config.Bounded) (hinv : σ.Inv site) {action : Action}
    {t : Bytes} (hheld : (slots σ.store).lookup ['0'] = some t)
    (hlost : (slots (σ.step site action).store).lookup ['0'] ≠ some t) :
    (slots (σ.step site action).store).lookup ['0'] = none ∧ σ.FreedBy ['0'] t action := by
  cases action with
  | boot process => exact absurd hheld hlost
  | crash process => exact absurd hheld hlost
  | arrive process identity token =>
    simp only [System.step] at hlost
    split at hlost <;> exact absurd hheld hlost
  | client i event =>
    simp only [System.step] at hlost
    split at hlost <;> exact absurd hheld hlost
  | evalAcquire i =>
    simp only [System.step] at hlost
    split at hlost
    · next process token phase source credential releaseMsg hi =>
      rcases acquire_slots hb hinv.sound source credential token.val with
        ⟨hsame, -⟩ | ⟨-, hfree, -⟩
      · exact absurd hheld (hsame ▸ hlost)
      · simp [hheld] at hfree
    · exact absurd hheld hlost
  | evalRelease i =>
    simp only [System.step] at hlost ⊢
    split at hlost
    · next process token phase acquireMsg permit hi =>
      have hmem := List.mem_of_getElem? hi
      obtain ⟨hended, hpermit⟩ := (hinv.requests _ hmem).release permit rfl
      change permit = ⟨['0'], token⟩ at hpermit
      subst hpermit
      rcases release_slots hb hinv.sound token.val with hsame | ⟨hown, herase⟩
      · exact absurd hheld (hsame ▸ hlost)
      · refine ⟨?_, .release i _ ⟨['0'], token⟩ hi rfl rfl ?_ rfl hended ?_⟩
        · simp [herase]
        · exact Option.some.inj (hown.symm.trans hheld)
        · exact fun q hq hqt => hinv.token_inj hq hmem hqt
    · exact absurd hheld hlost
  | reconcile generation =>
    simp only [System.step] at hlost ⊢
    split at hlost
    · next hquiet =>
      refine ⟨?_, .reconcile generation hquiet⟩
      rcases eval_run site (reconcile site generation) σ.store with ⟨e, -, h⟩ | ⟨-, h⟩
      · rw [h] at hlost
        exact absurd hheld hlost
      · rw [if_pos hquiet, h, reconcile_run hb hinv.sound, slots_withFields,
          AList.lookup_insert_ne (by decide), AList.lookup_erase]
    · exact absurd hheld hlost
  | advance ms =>
    simp only [System.step, slots_advance hinv.sound] at hlost
    exact absurd hheld hlost

theorem System.Inv.handlers_held (hinv : σ.Inv site) {permit : Permit}
    (hp : permit ∈ σ.handlers) :
    ∃ r ∈ σ.requests, permit = ⟨['0'], r.token⟩ ∧ (slots σ.store).lookup ['0'] = some r.token.val := by
  obtain ⟨r, hr, hhandler⟩ := List.mem_filterMap.mp hp
  exact ⟨r, hr, (hinv.requests r hr).permit permit hhandler⟩

/-- Handlers carry the tokens of their own requests, so no token is carried twice. -/
theorem System.Inv.handlers_tokens (hinv : σ.Inv site) :
    (σ.handlers.map Permit.token).Nodup := by
  have hsub : (σ.handlers.map Permit.token).Sublist (σ.requests.map Request.token) := by
    have hok := hinv.requests
    unfold System.handlers
    generalize σ.requests = rs at hok
    induction rs with
    | nil => simp
    | cons r rest ih =>
      have ih := ih fun q hq => hok q (List.mem_cons_of_mem _ hq)
      rcases hr : r.handler with _ | permit
      · simpa [hr] using ih.trans (List.sublist_cons_self _ _)
      · obtain ⟨rfl, -⟩ := (hok r List.mem_cons_self).permit permit hr
        simpa [hr] using ih
  exact hinv.distinct.sublist hsub

theorem System.Inv.handlers_slots (hinv : σ.Inv site) : (σ.handlers.map Permit.slot).Nodup := by
  refine List.Nodup.map_on ?_ hinv.handlers_tokens.of_map
  intro p hp q hq _
  obtain ⟨r, -, rfl, hr⟩ := hinv.handlers_held hp
  obtain ⟨r', -, rfl, hr'⟩ := hinv.handlers_held hq
  rw [hr, Option.some.injEq] at hr'
  rw [Subtype.ext hr']

end Steps

/-- Handlers that execute at one moment hold different slots, each slot filled with exactly
the handler's own token, so there are never more than `capacity` of them. A slot is emptied
only by the release of its own token after its handler ended, or by `reconcile` while no
call is in progress; stopping every process is enough for the latter. -/
theorem permit_mutual_exclusion {network : String → Except String ℕ} {environ : Environ}
    {site : Site} (hcfg : configured network environ = .ok site.config) (now delay : ℕ)
    (generation : Generation) (actions : List Action) :
    let σ := System.after site (freshStore site now delay generation) actions
    (∀ r ∈ σ.requests, ∀ permit, r.handler = some permit → permit.token = r.token) ∧
    (∀ permit ∈ σ.handlers, (∃ i < site.config.capacity, permit.slot = Lua.tostring i) ∧
      (slots σ.store).lookup permit.slot = some permit.token.val) ∧
    (σ.handlers.map Permit.slot).Nodup ∧
    σ.handlers.length ≤ site.config.capacity ∧
    (∀ action, ∀ i < site.config.capacity, ∀ t,
      (slots σ.store).lookup (Lua.tostring i) = some t →
      (slots (σ.step site action).store).lookup (Lua.tostring i) ≠ some t →
      (slots (σ.step site action).store).lookup (Lua.tostring i) = none ∧
        σ.FreedBy (Lua.tostring i) t action) ∧
    (σ.running = [] → σ.quiet) := by
  intro σ
  have hb := configured_bounded hcfg
  have hinv : σ.Inv site := System.after_inv hb (freshStore_sound site now delay generation) actions
  have hslot : ∀ permit ∈ σ.handlers, ∃ i < site.config.capacity, permit.slot = Lua.tostring i := by
    intro permit hp
    obtain ⟨r, -, rfl, -⟩ := hinv.handlers_held hp
    exact ⟨0, by simp [hb.capacity], rfl⟩
  refine ⟨?_, ?_, hinv.handlers_slots, ?_, ?_, hinv.quiet_of_stopped⟩
  · intro r hr permit hp
    rw [((hinv.requests r hr).permit permit hp).1]
  · intro permit hp
    obtain ⟨r, -, hpermit, hheld⟩ := hinv.handlers_held hp
    exact ⟨hslot permit hp, by rw [hpermit]; exact hheld⟩
  · -- Distinct slots out of `capacity` many.
    have hsub : σ.handlers.map Permit.slot ⊆ (List.range site.config.capacity).map Lua.tostring := by
      intro slot hs
      obtain ⟨permit, hp, rfl⟩ := List.mem_map.mp hs
      obtain ⟨i, hi, heq⟩ := hslot permit hp
      exact List.mem_map.mpr ⟨i, List.mem_range.mpr hi, heq.symm⟩
    simpa using (List.subperm_of_subset hinv.handlers_slots hsub).length_le
  · intro action i hi t hheld hlost
    rw [tostring_slot hb hi] at hheld hlost ⊢
    exact hinv.freedBy hb hheld hlost

/-- A granted request whose handler is running, newest action first. -/
def sampleActions : List Action :=
  [.client 0 .acquireReply, .evalAcquire 0,
    .arrive 7 (some ("s".toList, "c".toList)) firstToken, .boot 7]

theorem permit_mutual_exclusion_sample :
    configured (fun _ => .ok 32) (fun _ => none) = .ok sampleSite.config ∧
    let σ := System.after sampleSite (freshStore sampleSite 5000 0 sampleGeneration) sampleActions
    σ.handlers = [⟨['0'], firstToken⟩] ∧ σ.handlers.length ≤ 1 :=
  ⟨by rfl, by decide, (@permit_mutual_exclusion (fun _ => .ok 32) (fun _ => none) sampleSite (by rfl)
    5000 0 sampleGeneration sampleActions).2.2.2.1⟩

end Admission

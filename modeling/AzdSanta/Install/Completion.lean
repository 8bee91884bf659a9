import AzdSanta.Common.Sequential
import AzdSanta.Install.Transport
import AzdSanta.Python.JsonExtend

/-! `status` and `record_terminal` of the private installer's transport, over the files of one bundle and
its unit. `none` stands for any exception. -/
namespace Install
open Python Checks

/-- A file that `status` or `record_terminal` reads. -/
inductive Place where
  | active
  | context
  | bundle
  | complete
  | proof
  deriving DecidableEq

structure Disk where
  content : Place → Option Bytes
  /-- Whether `secure` accepts the path. -/
  secured : Place → Bool

/-- `secure(path)` and `path.read_bytes()`. -/
def Disk.read (d : Disk) (f : Place) : Option Bytes := do
  guard (d.secured f = true)
  d.content f

/-- The dictionary made of the lines of `systemctl show`; a later line replaces an earlier one. -/
def property (output : Text) (key : String) : Option Text :=
  ((splitlines output).filterMap splitEquals).reverse.lookup (text key)

/-- A field that equals a text. -/
def Json.states (v : Json) (key : String) (value : Text) : Bool := (v.item key).any fun x => x.same 0 (.str value)

/-- `value['outputs'][key] == item`, for every item of the target. -/
def Host.carries (h : Host) (outputs : Json) (target : List (Text × Json)) : Bool :=
  target.all fun m => match outputs with
    | .obj members => (members.lookup m.1).any fun v => v.same h.room m.2
    | _ => false

/-- `completion(directory, active)`. -/
def Host.completion (h : Host) (d : Disk) (active : Json) : Option (Bytes × Json) := do
  let raw ← d.read .complete
  let value ← h.loads raw
  let .obj fields := value | none
  guard (Setup.hasFields fields [text "scope", text "bundle_sha256", text "outputs", text "limitation"])
  guard (Json.states value "scope" (text "private-azd-install-complete"))
  let named ← active.item "bundle_sha256"
  guard ((← value.item "bundle_sha256").same h.room named)
  let target ← (← active.item "target").items
  guard (h.carries (← value.item "outputs") target)
  return (raw, value)

/-- The variables that systemd sets for `ExecStopPost`. -/
structure Report where
  serviceResult : Text
  exitCode : Text
  exitStatus : Text
  deriving DecidableEq

/-- The job has exited with status 0. -/
def Report.succeeded (r : Report) : Bool :=
  r.serviceResult = text "success" && r.exitCode = text "exited" && r.exitStatus = text "0"

def proofFields : List Text :=
  [text "scope", text "context_sha256", text "bundle_sha256", text "completion_sha256", text "invocation",
    text "service_result", text "exit_code", text "exit_status"]

/-- `proof`. -/
def proofOf (contextSha bundleSha completionSha invocation : Text) : Json :=
  .obj [(text "scope", .str (text "private-azd-install-terminal-success")), (text "context_sha256", .str contextSha),
    (text "bundle_sha256", .str bundleSha), (text "completion_sha256", .str completionSha),
    (text "invocation", .str invocation), (text "service_result", .str (text "success")),
    (text "exit_code", .str (text "exited")), (text "exit_status", .str (text "0"))]

/-- `record_terminal(context_path, digest)` for the context of a bundle, up to the writing of its proof. -/
def Host.recordTerminal (h : Host) (d : Disk) (bundleSha : Text) (r : Report) (invocation digest : Text) :
    Option Bytes := do
  guard (r.succeeded = true)
  guard (Setup.isHex 32 invocation = true)
  let raw ← d.read .context
  guard (h.sha raw = digest)
  let active ← h.loads raw
  guard (Json.states active "bundle_sha256" bundleSha)
  guard (Json.states active "scope" (text "private-azd-install-v1"))
  let reserved ← d.read .active
  guard (reserved = raw)
  let bundle ← d.read .bundle
  guard (h.sha bundle = bundleSha)
  let (complete, _) ← h.completion d active
  (h.writer.dumpsBytes (proofOf digest bundleSha (h.sha complete) invocation)).toOption

/-- What `status` returns, without the fields that repeat its argument. -/
structure Observation where
  state : Text
  substate : Text
  result : Option Text
  invocation : Option Text
  completion : Option Json

/-- The checks on the proof; the result is its invocation. -/
def Host.checkProof (h : Host) (proof : Json) (bundleSha : Text) (context complete : Bytes) : Option Text := do
  let .obj fields := proof | none
  guard (Setup.hasFields fields proofFields)
  guard (Json.states proof "scope" (text "private-azd-install-terminal-success"))
  guard (Json.states proof "context_sha256" (h.sha context))
  guard (Json.states proof "bundle_sha256" bundleSha)
  guard (Json.states proof "completion_sha256" (h.sha complete))
  let .str invocation ← proof.item "invocation" | none
  guard (Setup.isHex 32 invocation = true)
  guard (Json.states proof "service_result" (text "success"))
  guard (Json.states proof "exit_code" (text "exited"))
  guard (Json.states proof "exit_status" (text "0"))
  return invocation

/-- `status(bundle_sha)`, where `systemctl show` has printed `output` and `systemctl is-active` of the runtime
service succeeds or not. -/
def Host.status (h : Host) (d : Disk) (output : Text) (runtime : Bool) (bundleSha : Text) : Option Observation := do
  let activeRaw ← d.read .active
  let active ← h.loads activeRaw
  guard (Json.states active "bundle_sha256" bundleSha)
  let load ← property output "LoadState"
  guard (load = text "loaded" ∨ load = text "not-found")
  if (d.content .proof).isSome then
    guard (load = text "loaded" → property output "Result" = some (text "success") ∧
      property output "ExecMainStatus" = some (text "0") ∧ property output "ActiveState" ≠ some (text "failed"))
    let proof ← h.loads (← d.read .proof)
    let context ← d.read .context
    guard (context = activeRaw)
    let (complete, value) ← h.completion d active
    let invocation ← h.checkProof proof bundleSha context complete
    guard (load = text "loaded" → property output "InvocationID" = some invocation)
    guard (runtime = true)
    return ⟨text "completed", text "terminal-success", property output "Result", some invocation, some value⟩
  else
    guard (load = text "loaded")
    return ⟨(property output "ActiveState").getD (text "unknown"), (property output "SubState").getD (text "unknown"),
      property output "Result", property output "InvocationID", none⟩

section Inversion
variable {h : Host} {d : Disk}

theorem Disk.read_eq_some {f : Place} {raw : Bytes} : d.read f = some raw ↔ d.secured f = true ∧ d.content f = some raw := by
  rw [Disk.read, guard_bind_eq_some]

/-- A file of the right kind, whose bundle and target are those of `active`. -/
structure Fulfils (h : Host) (active value : Json) : Prop where
  scope : Json.states value "scope" (text "private-azd-install-complete") = true
  bundle : ∃ named own, active.item "bundle_sha256" = some named ∧ value.item "bundle_sha256" = some own ∧
    own.same h.room named = true
  target : ∃ items outputs, (active.item "target").bind Json.items = some items ∧ value.item "outputs" = some outputs ∧
    h.carries outputs items = true

theorem completion_eq_some {active : Json} {raw : Bytes} {value : Json} (hc : h.completion d active = some (raw, value)) :
    d.content .complete = some raw ∧ h.loads raw = some value ∧ Fulfils h active value := by
  obtain ⟨raw', hraw, hc⟩ := Option.bind_eq_some_iff.mp hc
  obtain ⟨value', hvalue, hc⟩ := Option.bind_eq_some_iff.mp hc
  cases value' with
  | obj fields =>
    obtain ⟨-, hc⟩ := guard_bind_eq_some.mp hc
    obtain ⟨hscope, hc⟩ := guard_bind_eq_some.mp hc
    obtain ⟨named, hnamed, hc⟩ := Option.bind_eq_some_iff.mp hc
    obtain ⟨own, hown, hc⟩ := Option.bind_eq_some_iff.mp hc
    obtain ⟨hsame, hc⟩ := guard_bind_eq_some.mp hc
    obtain ⟨target, htarget, hc⟩ := Option.bind_eq_some_iff.mp hc
    obtain ⟨items, hitems, hc⟩ := Option.bind_eq_some_iff.mp hc
    obtain ⟨outputs, houtputs, hc⟩ := Option.bind_eq_some_iff.mp hc
    obtain ⟨hcarries, hc⟩ := guard_bind_eq_some.mp hc
    obtain ⟨rfl, rfl⟩ := Prod.mk.inj (Option.some.inj hc)
    refine ⟨(Disk.read_eq_some.mp hraw).2, hvalue, hscope, ⟨named, own, hnamed, hown, hsame⟩,
      ⟨items, outputs, ?_, houtputs, hcarries⟩⟩
    rw [htarget]
    exact hitems
  | _ => cases hc

/-- A proof that names a context, a bundle, a completion and an invocation. -/
structure Names (proof : Json) (contextSha bundleSha completionSha invocation : Text) : Prop where
  scope : Json.states proof "scope" (text "private-azd-install-terminal-success") = true
  context : Json.states proof "context_sha256" contextSha = true
  bundle : Json.states proof "bundle_sha256" bundleSha = true
  completion : Json.states proof "completion_sha256" completionSha = true
  invocation : proof.item "invocation" = some (.str invocation)

theorem checkProof_eq_some {proof : Json} {bundleSha invocation : Text} {context complete : Bytes}
    (hp : h.checkProof proof bundleSha context complete = some invocation) :
    (∃ fields, proof = .obj fields) ∧ Names proof (h.sha context) bundleSha (h.sha complete) invocation := by
  cases proof with
  | obj fields =>
    obtain ⟨-, hp⟩ := guard_bind_eq_some.mp hp
    obtain ⟨hscope, hp⟩ := guard_bind_eq_some.mp hp
    obtain ⟨hcontext, hp⟩ := guard_bind_eq_some.mp hp
    obtain ⟨hbundle, hp⟩ := guard_bind_eq_some.mp hp
    obtain ⟨hcompletion, hp⟩ := guard_bind_eq_some.mp hp
    obtain ⟨named, hnamed, hp⟩ := Option.bind_eq_some_iff.mp hp
    cases named with
    | str named =>
      obtain ⟨-, hp⟩ := guard_bind_eq_some.mp hp
      obtain ⟨-, hp⟩ := guard_bind_eq_some.mp hp
      obtain ⟨-, hp⟩ := guard_bind_eq_some.mp hp
      obtain ⟨-, hp⟩ := guard_bind_eq_some.mp hp
      obtain rfl := Option.some.inj hp
      exact ⟨⟨fields, rfl⟩, hscope, hcontext, hbundle, hcompletion, hnamed⟩
    | _ => cases hp
  | _ => cases hp

/-- What `completed` rests on. -/
structure Completed (h : Host) (d : Disk) (output : Text) (bundleSha : Text) (o : Observation) : Prop where
  files : ∃ context complete proofRaw active value proof invocation,
    d.content .active = some context ∧ d.content .context = some context ∧ d.content .complete = some complete ∧
    d.content .proof = some proofRaw ∧ h.loads context = some active ∧
    Json.states active "bundle_sha256" bundleSha = true ∧ h.loads complete = some value ∧ Fulfils h active value ∧
    h.loads proofRaw = some proof ∧ (∃ fields, proof = .obj fields) ∧
    Names proof (h.sha context) bundleSha (h.sha complete) invocation ∧
    o.invocation = some invocation ∧ o.completion = some value
  unit : property output "LoadState" = some (text "loaded") → property output "Result" = some (text "success") ∧
    property output "ExecMainStatus" = some (text "0") ∧ property output "ActiveState" ≠ some (text "failed") ∧
    property output "InvocationID" = o.invocation

/-- systemd has no state of this name. -/
def Genuine (output : Text) : Prop := property output "ActiveState" ≠ some (text "completed")

theorem status_completed {output bundleSha : Text} {runtime : Bool} {o : Observation} (houtput : Genuine output)
    (hs : h.status d output runtime bundleSha = some o) (hstate : o.state = text "completed") :
    Completed h d output bundleSha o := by
  obtain ⟨activeRaw, hactive, hs⟩ := Option.bind_eq_some_iff.mp hs
  obtain ⟨active, hloads, hs⟩ := Option.bind_eq_some_iff.mp hs
  obtain ⟨hbundle, hs⟩ := guard_bind_eq_some.mp hs
  obtain ⟨load, hload, hs⟩ := Option.bind_eq_some_iff.mp hs
  obtain ⟨-, hs⟩ := guard_bind_eq_some.mp hs
  split_ifs at hs with hproof
  · obtain ⟨hunit, hs⟩ := guard_bind_eq_some.mp hs
    obtain ⟨proofRaw, hproofRaw, hs⟩ := Option.bind_eq_some_iff.mp hs
    obtain ⟨proof, hproof, hs⟩ := Option.bind_eq_some_iff.mp hs
    obtain ⟨context, hcontext, hs⟩ := Option.bind_eq_some_iff.mp hs
    obtain ⟨hsame, hs⟩ := guard_bind_eq_some.mp hs
    obtain ⟨⟨complete, value⟩, hcompletion, hs⟩ := Option.bind_eq_some_iff.mp hs
    obtain ⟨invocation, hnames, hs⟩ := Option.bind_eq_some_iff.mp hs
    obtain ⟨hinvocation, hs⟩ := guard_bind_eq_some.mp hs
    obtain ⟨-, hs⟩ := guard_bind_eq_some.mp hs
    obtain rfl := Option.some.inj hs
    obtain ⟨hcomplete, hvalue, hfulfils⟩ := completion_eq_some hcompletion
    obtain ⟨hfields, hnames⟩ := checkProof_eq_some hnames
    rw [hsame] at hcontext hnames
    refine ⟨⟨activeRaw, complete, proofRaw, active, value, proof, invocation, (Disk.read_eq_some.mp hactive).2,
      (Disk.read_eq_some.mp hcontext).2, hcomplete, (Disk.read_eq_some.mp hproofRaw).2, hloads, hbundle, hvalue,
      hfulfils, hproof, hfields, hnames, rfl, rfl⟩, ?_⟩
    intro hloaded
    have hloaded : load = text "loaded" := Option.some.inj (hload.symm.trans hloaded)
    obtain ⟨hresult, hmain, hfailed⟩ := hunit hloaded
    exact ⟨hresult, hmain, hfailed, hinvocation hloaded⟩
  · obtain ⟨-, hs⟩ := guard_bind_eq_some.mp hs
    obtain rfl := Option.some.inj hs
    cases hstates : property output "ActiveState" with
    | none =>
      rw [hstates] at hstate
      have hunknown : text "unknown" = text "completed" := hstate
      exact absurd hunknown (by decide)
    | some state =>
      rw [hstates] at hstate
      exact absurd (hstates.trans (congrArg some hstate)) houtput

end Inversion

section Proofs
variable {h : Host}

/-- SHA-256 in hexadecimal. -/
def Host.Hexadecimal (h : Host) : Prop := ∀ raw, Setup.isHex 64 (h.sha raw) = true

/-- A proof in the order in which it is written. -/
def sortedProof (contextSha bundleSha completionSha invocation : Text) : List (Text × Json) :=
  [(text "bundle_sha256", .str bundleSha), (text "completion_sha256", .str completionSha),
    (text "context_sha256", .str contextSha), (text "exit_code", .str (text "exited")),
    (text "exit_status", .str (text "0")), (text "invocation", .str invocation),
    (text "scope", .str (text "private-azd-install-terminal-success")), (text "service_result", .str (text "success"))]

theorem dumps_proof (contextSha bundleSha completionSha invocation : Text) :
    h.writer.dumps (proofOf contextSha bundleSha completionSha invocation) =
      h.writer.dumps (.obj (sortedProof contextSha bundleSha completionSha invocation)) := by
  unfold Writer.dumps proofOf Host.writer
  cases h.room with
  | zero => rfl
  | succ room =>
    rw [Writer.print, Writer.print]
    rfl

theorem isHex_scalar {n : ℕ} {s : Text} (hs : Setup.isHex n s = true) : ∀ c ∈ s, isScalar c = true := by
  simp only [Setup.isHex, Bool.and_eq_true, List.all_eq_true] at hs
  intro c hc
  have hlower := hs.2 c hc
  simp only [Setup.isLowerHex, isDigit, Bool.or_eq_true, Bool.and_eq_true, decide_eq_true_eq] at hlower
  simp only [isScalar, isSurrogate, Bool.and_eq_true, decide_eq_true_eq, Bool.not_eq_true', Bool.and_eq_false_iff,
    decide_eq_false_iff_not]
  omega

theorem sortedProof_plain {contextSha bundleSha completionSha invocation : Text} (hc : ∀ c ∈ contextSha, isScalar c = true)
    (hb : ∀ c ∈ bundleSha, isScalar c = true) (hd : ∀ c ∈ completionSha, isScalar c = true)
    (hi : ∀ c ∈ invocation, isScalar c = true) (d : ℕ) :
    (Json.obj (sortedProof contextSha bundleSha completionSha invocation)).Plain (Reader.standard h.room h.float)
      h.writer (d + 1) := by
  refine ⟨fun _ => ?_, ?_, ?_⟩
  · have hkeys : ((sortedProof contextSha bundleSha completionSha invocation).map Prod.fst).Pairwise (· ≤ ·) := by
      show [text "bundle_sha256", text "completion_sha256", text "context_sha256", text "exit_code",
        text "exit_status", text "invocation", text "scope", text "service_result"].Pairwise (· ≤ ·)
      decide
    exact List.pairwise_map.mp hkeys
  · rfl
  · simp only [sortedProof, List.forall_mem_cons, List.not_mem_nil, false_implies, implies_true, and_true]
    simp only [Json.Plain]
    exact ⟨⟨by decide, hb⟩, ⟨by decide, hd⟩, ⟨by decide, hc⟩, ⟨by decide, by decide⟩, ⟨by decide, by decide⟩,
      ⟨by decide, hi⟩, ⟨by decide, by decide⟩, ⟨by decide, by decide⟩⟩

/-- What is read of the start of a proof is the proof. -/
theorem loads_proof {contextSha bundleSha completionSha invocation : Text} (hc : ∀ c ∈ contextSha, isScalar c = true)
    (hb : ∀ c ∈ bundleSha, isScalar c = true) (hd : ∀ c ∈ completionSha, isScalar c = true)
    (hi : ∀ c ∈ invocation, isScalar c = true) {full raw : Bytes}
    (hfull : h.writer.dumpsBytes (proofOf contextSha bundleSha completionSha invocation) = .ok full) (hraw : raw <+: full)
    {proof : Json} (hproof : h.loads raw = some proof) (hfields : ∃ fields, proof = .obj fields) :
    proof = .obj (sortedProof contextSha bundleSha completionSha invocation) := by
  have hcomma : Separator 44 h.writer.comma := ⟨[32], rfl, by decide⟩
  have hcolon : Separator 58 h.writer.colon := ⟨[32], rfl, by decide⟩
  obtain ⟨t, ht, hfull⟩ := bind_eq_ok.mp hfull
  rw [dumps_proof] at ht
  cases hroom : h.room with
  | zero =>
    simp [Writer.dumps, Host.writer, hroom, Writer.print] at ht
  | succ room =>
    have hdepth : h.writer.depth = room + 1 := hroom
    have hplain := sortedProof_plain (h := h) hc hb hd hi room
    have hascii : Ascii t := print_ascii rfl (separator_ascii (by norm_num) hcomma) (separator_ascii (by norm_num) hcolon)
      ht (hdepth ▸ hplain.leaves)
    rw [encodeUtf8_ascii hascii] at hfull
    obtain rfl := Except.ok.inj hfull
    have hmark : t.head? ≠ some 0xFEFF := by
      intro hhead
      have hfirst := hascii _ (List.mem_of_mem_head? hhead)
      omega
    have hwhole := loads_dumps (r := Reader.standard h.room h.float) hcomma hcolon ht (hdepth ▸ hplain) le_rfl hmark
    have hpart : raw = (t.take raw.length).map UInt8.ofNat := by
      rw [List.map_take]
      exact List.prefix_iff_eq_take.mp hraw
    have hasciiPart : Ascii (t.take raw.length) := fun c hc => hascii c (List.mem_of_mem_take hc)
    rw [Host.loads, toOption_eq_some, Reader.loadsBytes, hpart, decodeDetected_ascii hasciiPart] at hproof
    obtain ⟨fields, rfl⟩ := hfields
    exact loads_initial (List.take_prefix _ _) hproof hwhole rfl

/-- A whole proof is read back. -/
theorem loads_proof_whole {contextSha bundleSha completionSha invocation : Text}
    (hc : ∀ c ∈ contextSha, isScalar c = true) (hb : ∀ c ∈ bundleSha, isScalar c = true)
    (hd : ∀ c ∈ completionSha, isScalar c = true) (hi : ∀ c ∈ invocation, isScalar c = true) {full : Bytes}
    (hfull : h.writer.dumpsBytes (proofOf contextSha bundleSha completionSha invocation) = .ok full) :
    h.loads full = some (.obj (sortedProof contextSha bundleSha completionSha invocation)) := by
  have hcomma : Separator 44 h.writer.comma := ⟨[32], rfl, by decide⟩
  have hcolon : Separator 58 h.writer.colon := ⟨[32], rfl, by decide⟩
  rw [Host.loads, toOption_eq_some]
  rw [Writer.dumpsBytes, dumps_proof, ← Writer.dumpsBytes] at hfull
  cases hroom : h.room with
  | zero =>
    obtain ⟨t, ht, -⟩ := bind_eq_ok.mp hfull
    simp [Writer.dumps, Host.writer, hroom, Writer.print] at ht
  | succ room =>
    have hdepth : h.writer.depth = room + 1 := hroom
    rw [← hroom]
    exact loadsBytes_dumpsBytes rfl hcomma hcolon hfull (hdepth ▸ sortedProof_plain hc hb hd hi room) le_rfl

theorem recordTerminal_eq_some {d : Disk} {bundleSha invocation digest : Text} {r : Report} {full : Bytes}
    (hr : h.recordTerminal d bundleSha r invocation digest = some full) :
    r.succeeded = true ∧ Setup.isHex 32 invocation = true ∧ ∃ context bundle complete,
      d.content .context = some context ∧ d.content .active = some context ∧ d.content .bundle = some bundle ∧
      d.content .complete = some complete ∧ h.sha bundle = bundleSha ∧
      h.writer.dumpsBytes (proofOf (h.sha context) bundleSha (h.sha complete) invocation) = .ok full := by
  obtain ⟨hsucceeded, hr⟩ := guard_bind_eq_some.mp hr
  obtain ⟨hinvocation, hr⟩ := guard_bind_eq_some.mp hr
  obtain ⟨context, hcontext, hr⟩ := Option.bind_eq_some_iff.mp hr
  obtain ⟨hdigest, hr⟩ := guard_bind_eq_some.mp hr
  obtain ⟨active, hactive, hr⟩ := Option.bind_eq_some_iff.mp hr
  obtain ⟨-, hr⟩ := guard_bind_eq_some.mp hr
  obtain ⟨-, hr⟩ := guard_bind_eq_some.mp hr
  obtain ⟨reserved, hreserved, hr⟩ := Option.bind_eq_some_iff.mp hr
  obtain ⟨hsame, hr⟩ := guard_bind_eq_some.mp hr
  obtain ⟨bundle, hbundle, hr⟩ := Option.bind_eq_some_iff.mp hr
  obtain ⟨hsha, hr⟩ := guard_bind_eq_some.mp hr
  obtain ⟨⟨complete, value⟩, hcomplete, hr⟩ := Option.bind_eq_some_iff.mp hr
  rw [← hdigest] at hr
  rw [hsame] at hreserved
  exact ⟨hsucceeded, hinvocation, context, bundle, complete, (Disk.read_eq_some.mp hcontext).2,
    (Disk.read_eq_some.mp hreserved).2, (Disk.read_eq_some.mp hbundle).2, (completion_eq_some hcomplete).1, hsha,
    toOption_eq_some.mp hr⟩

theorem states_str {fields : List (Text × Json)} {key : String} {value own : Text}
    (hs : Json.states (.obj fields) key value = true) (hown : fields.lookup (text key) = some (.str own)) :
    own = value := by
  rw [Json.states, Json.item, hown] at hs
  simpa [Json.same] using hs

/-- An observation that rests on the start of a proof rests on what the proof was made of. -/
theorem completed_names {d : Disk} {output bundleSha : Text} {o : Observation} (hhex : h.Hexadecimal)
    (hc : Completed h d output bundleSha o) {context complete full raw : Bytes} {invocation bundle : Text}
    (hbundle : ∀ c ∈ bundle, isScalar c = true) (hinvocation : Setup.isHex 32 invocation = true)
    (hfull : h.writer.dumpsBytes (proofOf (h.sha context) bundle (h.sha complete) invocation) = .ok full)
    (hraw : raw <+: full) (hproof : d.content .proof = some raw) :
    ∃ now nowComplete, d.content .context = some now ∧ d.content .complete = some nowComplete ∧
      h.sha now = h.sha context ∧ h.sha nowComplete = h.sha complete ∧ o.invocation = some invocation := by
  obtain ⟨now, nowComplete, proofRaw, active, value, proof, named, -, hnow, hnowComplete, hproofRaw, -, -, -, -, hloads,
    hfields, hnames, hnamed, -⟩ := hc.files
  obtain rfl := Option.some.inj (hproof.symm.trans hproofRaw)
  have hsorted := loads_proof (isHex_scalar (hhex _)) hbundle (isHex_scalar (hhex _)) (isHex_scalar hinvocation) hfull
    hraw hloads hfields
  rw [hsorted] at hnames
  refine ⟨now, nowComplete, hnow, hnowComplete, (states_str hnames.context rfl).symm,
    (states_str hnames.completion rfl).symm, ?_⟩
  have hsame : Json.str invocation = .str named := Option.some.inj hnames.invocation
  rw [hnamed, Json.str.inj hsame]

theorem checkProof_sorted (bundleSha : Text) {contextSha completionSha invocation : Text} {context complete : Bytes}
    (hcontext : h.sha context = contextSha) (hcomplete : h.sha complete = completionSha)
    (hinvocation : Setup.isHex 32 invocation = true) :
    h.checkProof (.obj (sortedProof contextSha bundleSha completionSha invocation)) bundleSha context complete =
      some invocation := by
  have hfields : Setup.hasFields (sortedProof contextSha bundleSha completionSha invocation) proofFields = true := by
    show Setup.hasFields [_, _, _, _, _, _, _, _] _ = true
    rfl
  have hstates (key : String) (value : Text)
      (h : (sortedProof contextSha bundleSha completionSha invocation).lookup (text key) = some (.str value)) :
      Json.states (.obj (sortedProof contextSha bundleSha completionSha invocation)) key value = true := by
    rw [Json.states, Json.item, h]
    simp [Json.same]
  have hnamed : (Json.obj (sortedProof contextSha bundleSha completionSha invocation)).item "invocation" =
      some (.str invocation) := rfl
  rw [Host.checkProof, hcontext, hcomplete]
  simp only [hnamed]
  rw [hstates _ _ rfl, hstates _ _ rfl, hstates _ _ rfl, hstates _ _ rfl, hstates _ _ rfl, hstates _ _ rfl,
    hstates _ _ rfl, hfields]
  simp [guard, hinvocation]

/-- While the files of the proof stay as they are, the installation is completed. -/
theorem status_recorded (d' : Disk) {d : Disk} {bundleSha invocation digest output : Text} {r : Report} {proof : Bytes}
    (hhex : h.Hexadecimal) (hrecord : h.recordTerminal d bundleSha r invocation digest = some proof)
    (hactive : d'.read .active = d.read .active) (hcontext : d'.read .context = d.read .context)
    (hcomplete : d'.read .complete = d.read .complete) (hproof : d'.read .proof = some proof)
    (hload : property output "LoadState" = some (text "not-found")) :
    ∃ o, h.status d' output true bundleSha = some o ∧ o.state = text "completed" := by
  obtain ⟨-, hr⟩ := guard_bind_eq_some.mp hrecord
  obtain ⟨hinvocation, hr⟩ := guard_bind_eq_some.mp hr
  obtain ⟨context, hread, hr⟩ := Option.bind_eq_some_iff.mp hr
  obtain ⟨hdigest, hr⟩ := guard_bind_eq_some.mp hr
  obtain ⟨active, hloads, hr⟩ := Option.bind_eq_some_iff.mp hr
  obtain ⟨hbundle, hr⟩ := guard_bind_eq_some.mp hr
  obtain ⟨-, hr⟩ := guard_bind_eq_some.mp hr
  obtain ⟨reserved, hreserved, hr⟩ := Option.bind_eq_some_iff.mp hr
  obtain ⟨hsame, hr⟩ := guard_bind_eq_some.mp hr
  obtain ⟨bundle, -, hr⟩ := Option.bind_eq_some_iff.mp hr
  obtain ⟨hsha, hr⟩ := guard_bind_eq_some.mp hr
  obtain ⟨⟨complete, value⟩, hcompletion, hr⟩ := Option.bind_eq_some_iff.mp hr
  have hwritten := loads_proof_whole (isHex_scalar (hdigest ▸ hhex context)) (isHex_scalar (hsha ▸ hhex bundle))
    (isHex_scalar (hhex complete)) (isHex_scalar hinvocation) (toOption_eq_some.mp hr)
  have hcompletion' : h.completion d' active = some (complete, value) := by
    rw [← hcompletion, Host.completion, Host.completion, hcomplete]
  have hexists : (d'.content .proof).isSome = true := by
    rw [(Disk.read_eq_some.mp hproof).2]
    rfl
  have hchecked := checkProof_sorted (h := h) bundleSha hdigest (rfl : h.sha complete = _) hinvocation
  have hne : text "not-found" ≠ text "loaded" := by decide
  rw [hsame] at hreserved
  refine ⟨⟨text "completed", text "terminal-success", property output "Result", some invocation, some value⟩, ?_, rfl⟩
  rw [Host.status, hactive, hreserved, hcontext, hread, hproof]
  simp [guard, hloads, hbundle, hload, hexists, hwritten, hcompletion', hchecked, hne]

end Proofs

section Machine

/-- Where the unit of a bundle is. -/
inductive Phase where
  | idle
  | running (invocation : Text)
  /-- The job has ended and `ExecStopPost` has not checked it. -/
  | stopped (invocation : Text) (report : Report)
  /-- The checks have passed with this proof. -/
  | checked (proof : Bytes)
  /-- The proof file has been created. -/
  | writing (proof : Bytes)
  deriving DecidableEq

/-- An end of the job, with the completion there was then. -/
structure Exit where
  invocation : Text
  report : Report
  complete : Option Bytes

structure Machine where
  disk : Disk
  phase : Phase
  /-- All ends of the job, the last first. -/
  exits : List Exit

def Disk.store (d : Disk) (f : Place) (raw : Bytes) : Disk :=
  { d with content := fun g => if g = f then some raw else d.content g }

/-- A step of the host. A crash or a reboot ends whatever the unit is at. -/
inductive Step (h : Host) (bundleSha : Text) : Machine → Machine → Prop
  | start {d : Disk} {exits : List Exit} (invocation : Text) :
      Step h bundleSha ⟨d, .idle, exits⟩ ⟨d, .running invocation, exits⟩
  | exit {d : Disk} {exits : List Exit} {invocation : Text} (report : Report) :
      Step h bundleSha ⟨d, .running invocation, exits⟩
        ⟨d, .stopped invocation report, ⟨invocation, report, d.content .complete⟩ :: exits⟩
  | check {d : Disk} {exits : List Exit} {invocation : Text} {report : Report} {digest : Text} {proof : Bytes}
      (hrecord : h.recordTerminal d bundleSha report invocation digest = some proof) :
      Step h bundleSha ⟨d, .stopped invocation report, exits⟩ ⟨d, .checked proof, exits⟩
  /-- `O_CREAT | O_EXCL`. -/
  | create {d : Disk} {exits : List Exit} {proof : Bytes} (hnone : d.content .proof = none) :
      Step h bundleSha ⟨d, .checked proof, exits⟩ ⟨d.store .proof [], .writing proof, exits⟩
  /-- Some part of the proof has reached the file. -/
  | write {d : Disk} {exits : List Exit} {proof : Bytes} (n : ℕ) (hsome : d.content .proof ≠ none) :
      Step h bundleSha ⟨d, .writing proof, exits⟩ ⟨d.store .proof (proof.take n), .writing proof, exits⟩
  /-- Anything else that happens on the disk. Nothing else writes the proof, and only the job writes its completion. -/
  | alter {d : Disk} {phase : Phase} {exits : List Exit} (d' : Disk)
      (hproof : d'.content .proof = d.content .proof ∨ d'.content .proof = none)
      (hcomplete : (∃ invocation report, phase = .stopped invocation report) →
        d'.content .complete = d.content .complete) : Step h bundleSha ⟨d, phase, exits⟩ ⟨d', phase, exits⟩
  | stop {d : Disk} {phase : Phase} {exits : List Exit} : Step h bundleSha ⟨d, phase, exits⟩ ⟨d, .idle, exits⟩

/-- A proof made for an end of the job. -/
def Proves (h : Host) (bundleSha : Text) (e : Exit) (proof : Bytes) : Prop :=
  e.report.succeeded = true ∧ Setup.isHex 32 e.invocation = true ∧ (∃ bundle, h.sha bundle = bundleSha) ∧
    ∃ context complete, e.complete = some complete ∧
      h.writer.dumpsBytes (proofOf (h.sha context) bundleSha (h.sha complete) e.invocation) = .ok proof

/-- What holds at all times: the proof file is the start of a proof, and the recorder works on an end of the job. -/
structure Recorded (h : Host) (bundleSha : Text) (m : Machine) : Prop where
  file : ∀ raw, m.disk.content .proof = some raw → ∃ e ∈ m.exits, ∃ proof, Proves h bundleSha e proof ∧ raw <+: proof
  stopped : ∀ invocation report, m.phase = .stopped invocation report →
    ⟨invocation, report, m.disk.content .complete⟩ ∈ m.exits
  made : ∀ proof, m.phase = .checked proof ∨ m.phase = .writing proof → ∃ e ∈ m.exits, Proves h bundleSha e proof

theorem Disk.store_self (d : Disk) (f : Place) (raw : Bytes) : (d.store f raw).content f = some raw := if_pos rfl

theorem Recorded.step {h : Host} {bundleSha : Text} {m m' : Machine} (hm : Recorded h bundleSha m)
    (hstep : Step h bundleSha m m') : Recorded h bundleSha m' := by
  cases hstep with
  | start invocation =>
    refine ⟨hm.file, ?_, ?_⟩
    · intro _ _ hphase
      cases hphase
    · intro _ hphase
      rcases hphase with hphase | hphase <;> cases hphase
  | @exit d exits invocation report =>
    refine ⟨?_, ?_, ?_⟩
    · intro raw hraw
      obtain ⟨e, he, hproof⟩ := hm.file raw hraw
      exact ⟨e, List.mem_cons_of_mem _ he, hproof⟩
    · intro _ _ hphase
      cases hphase
      exact List.mem_cons_self
    · intro _ hphase
      rcases hphase with hphase | hphase <;> cases hphase
  | @check d exits invocation report digest proof hrecord =>
    refine ⟨hm.file, ?_, ?_⟩
    · intro _ _ hphase
      cases hphase
    · intro proof' hphase
      obtain rfl : proof = proof' := by
        rcases hphase with hphase | hphase <;> cases hphase
        rfl
      obtain ⟨hsucceeded, hinvocation, context, bundle, complete, -, -, -, hcomplete, hsha, hproof⟩ :=
        recordTerminal_eq_some hrecord
      exact ⟨_, hm.stopped invocation report rfl, hsucceeded, hinvocation, ⟨bundle, hsha⟩, context, complete, hcomplete,
        hproof⟩
  | @create d exits proof hnone =>
    obtain ⟨e, he, hproves⟩ := hm.made proof (Or.inl rfl)
    refine ⟨?_, ?_, ?_⟩
    · intro raw hraw
      rw [Disk.store_self] at hraw
      obtain rfl := Option.some.inj hraw
      exact ⟨e, he, proof, hproves, List.nil_prefix⟩
    · intro _ _ hphase
      cases hphase
    · intro proof' hphase
      obtain rfl : proof = proof' := by
        rcases hphase with hphase | hphase <;> cases hphase
        rfl
      exact ⟨e, he, hproves⟩
  | @write d exits proof n hsome =>
    obtain ⟨e, he, hproves⟩ := hm.made proof (Or.inr rfl)
    refine ⟨?_, ?_, ?_⟩
    · intro raw hraw
      rw [Disk.store_self] at hraw
      obtain rfl := Option.some.inj hraw
      exact ⟨e, he, proof, hproves, List.take_prefix _ _⟩
    · intro _ _ hphase
      cases hphase
    · intro proof' hphase
      obtain rfl : proof = proof' := by
        rcases hphase with hphase | hphase <;> cases hphase
        rfl
      exact ⟨e, he, hproves⟩
  | @alter d phase exits d' hproof hcomplete =>
    refine ⟨?_, ?_, hm.made⟩
    · intro raw hraw
      rcases hproof with hsame | hnone
      · exact hm.file raw (hsame ▸ hraw)
      · rw [hnone] at hraw
        cases hraw
    · intro invocation report hphase
      have hentry := hm.stopped invocation report hphase
      rwa [show d'.content .complete = d.content .complete from hcomplete ⟨_, _, hphase⟩]
  | stop =>
    refine ⟨hm.file, ?_, ?_⟩
    · intro _ _ hphase
      cases hphase
    · intro _ hphase
      rcases hphase with hphase | hphase <;> cases hphase

theorem Recorded.runs {h : Host} {bundleSha : Text} {m m' : Machine} (hm : Recorded h bundleSha m)
    (hrun : Relation.ReflTransGen (Step h bundleSha) m m') : Recorded h bundleSha m' := by
  induction hrun with
  | refl => exact hm
  | tail _ hstep ih => exact ih.step hstep

end Machine

/-- SHA-256 keeps these apart. -/
def Apart (h : Host) (a b : Option Bytes) : Prop := ∀ x y, a = some x → b = some y → h.sha x = h.sha y → x = y

section Sample

/-- A manifest, of 38 bytes. -/
def sampleManifest : Bytes := (text "original pinned public source manifest").map UInt8.ofNat

def sampleBundle : Text := text "7bddec9b04ff08e6750452c75a443e87a5bf7672ba0e799d282a5f0eda2b2d66"

def sampleContext : Bytes :=
  (text "\x7b\"bundle_sha256\": \"" ++ sampleBundle ++
    text "\", \"scope\": \"private-azd-install-v1\", \"target\": \x7b\x7d\x7d").map UInt8.ofNat

def sampleCompletion : Bytes :=
  (text "\x7b\"bundle_sha256\": \"" ++ sampleBundle ++
    text "\", \"limitation\": \"none\", \"outputs\": \x7b\x7d, \"scope\": \"private-azd-install-complete\"\x7d").map
    UInt8.ofNat

/-- SHA-256 is right on the files of the sample, which it tells by their length. -/
def sampleHost : Host where
  room := 3
  float := id
  sha raw :=
    if raw.length = 38 then sampleBundle
    else if raw.length = 134 then text "b747c1d692bd39aeb3d79fe7858939de4078985a8998f91e31946fe2cbda90c2"
    else if raw.length = 163 then text "1fc90528130c2ff5f0b3f7f509c861e8d2222efbfb461be2d2a5be632885594b"
    else List.replicate 64 48
  gunzip _ := none

def sampleDisk (bundle : Bytes) (proof : Option Bytes) : Disk where
  content f :=
    match f with
    | .active | .context => some sampleContext
    | .bundle => some bundle
    | .complete => some sampleCompletion
    | .proof => proof
  secured _ := true

def sampleReport : Report := ⟨text "success", text "exited", text "0"⟩

def sampleInvocation : Text := List.replicate 32 99

theorem sampleHost_hexadecimal : sampleHost.Hexadecimal := by
  intro raw
  show Setup.isHex 64 (ite _ _ _) = true
  split_ifs <;> decide

theorem sample_recorded : ∃ proof, sampleHost.recordTerminal (sampleDisk sampleManifest none) sampleBundle sampleReport
    sampleInvocation (sampleHost.sha sampleContext) = some proof := by
  apply Option.isSome_iff_exists.mp
  decide +kernel

theorem sample_absent : property (text "LoadState=not-found") "LoadState" = some (text "not-found") := by
  decide +kernel

theorem sample_genuine : Genuine (text "LoadState=not-found") := by
  have hstate : property (text "LoadState=not-found") "ActiveState" = none := by
    decide +kernel
  rw [Genuine, hstate]
  simp

end Sample
end Install

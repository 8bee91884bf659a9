import AzdSanta.Install.Bundle
import AzdSanta.Install.Granted

/-! The source bundle from `New-PrivateSourceBundle` through the chunks to the files on the host. -/
namespace Install
open Python Processes Sequential Checks

/-- The packages of both sides do what their documentation says. -/
structure Standard (s : Client) (h : Host) : Prop where
  sha : s.sha = h.sha
  hex : ∀ raw, Setup.isHex 64 (h.sha raw) = true
  json : ∀ read, h.loads (s.json (s.package read)) = some (s.package read)
  gzip : ∀ raw, raw.length ≤ 2097152 → h.gunzip (s.gzip raw) = some raw
  /-- A gzip file begins with its header. -/
  header : ∀ raw, s.gzip raw ≠ []

section Relay
variable {s : Client} {h : Host} {read : Text → Bytes} {b : Bundle} {n : ℕ} {log : Log}

theorem encoded_length {raw : Bytes} (h : raw.length ≤ 1048576) : (b64encode false raw).length ≤ 1398104 := by
  rw [b64encode_length]
  omega

/-- A bundle is returned where the files, their JSON and the archive are not too large. -/
theorem bundle_eq_ok : s.newPrivateSourceBundle read = .ok b ↔
    (∀ name ∈ files, (read name).length ≤ 262144) ∧ (s.json (s.package read)).length ≤ 2097152 ∧
      (s.gzip (s.json (s.package read))).length ≤ 1048576 ∧
      b = ⟨s.sha (s.json (s.package read)), s.sha (s.gzip (s.json (s.package read))),
        chunksOf (b64encode false (s.gzip (s.json (s.package read))))⟩ := by
  simp only [Client.newPrivateSourceBundle, throw_eq_error, pure_eq_ok, error_bind, check_eq_ok, Except.ok.injEq, not_lt,
    Bool.not_eq_true, List.any_eq_false, decide_eq_true_eq]
  constructor
  · rintro ⟨hfiles, hraw, hcompressed, -, rfl⟩
    exact ⟨hfiles, hraw, hcompressed, rfl⟩
  · rintro ⟨hfiles, hraw, hcompressed, rfl⟩
    exact ⟨hfiles, hraw, hcompressed, chunksOf_length (encoded_length hcompressed), rfl⟩

theorem too_many_chunks_unreachable : s.newPrivateSourceBundle read ≠ .error "Too many bounded installer chunks." := by
  intro hb
  unfold Client.newPrivateSourceBundle at hb
  simp only [throw_eq_error, pure_eq_ok, error_bind] at hb
  split_ifs at hb with hfiles hraw hcompressed hchunks
  · exact absurd (Except.error.inj hb) (by decide)
  · exact absurd (Except.error.inj hb) (by decide)
  · exact absurd (Except.error.inj hb) (by decide)
  · exact absurd (chunksOf_length (encoded_length (not_lt.mp hcompressed))) (not_le.mpr hchunks)

theorem chunkCall_chunk {index : ℕ} {data : Text} (hindex : index < b.chunks.length) (hcount : b.chunks.length ≤ 64)
    (hsize : 0 < data.length ∧ data.length ≤ 24576) (htext : isBase64Text data = true) :
    (b.chunkCall index data).chunk = some (index, data) := by
  have hi : (b.chunkCall index data).integer "index" = some (index : ℤ) := rfl
  have hc : (b.chunkCall index data).integer "count" = some (b.chunks.length : ℤ) := rfl
  have hd : (b.chunkCall index data).string "data" = some data := rfl
  have hchecks : 0 ≤ (index : ℤ) ∧ (index : ℤ) < b.chunks.length ∧ (b.chunks.length : ℤ) ≤ 64 ∧ 0 < data.length ∧
      data.length ≤ 24576 ∧ isBase64Text data = true := by
    refine ⟨?_, ?_, ?_, hsize.1, hsize.2, htext⟩ <;> omega
  rw [Call.chunk, hi, hc, hd]
  exact guard_bind_eq_some.mpr ⟨hchecks, by simp⟩

/-- A host that can take a chunk of the bundle takes it. -/
theorem chunk_delivers (hstd : Standard s h) (hb : s.newPrivateSourceBundle read = .ok b) {index : ℕ} {data : Text}
    (hdata : b.chunks[index]? = some data) (hopen : Open h b.sha256 log)
    (hstored : content (.chunk b.sha256 b.archiveSha256 index) log = none ∨
      Stored b.sha256 b.archiveSha256 index data log) :
    Delivers (granted n (b.chunkCall index data)) (h.run (b.chunkCall index data))
      (fun _ log' => Keeps {.chunk b.sha256 b.archiveSha256 index} log log' ∧
        Stored b.sha256 b.archiveSha256 index data log') log := by
  obtain ⟨-, -, hcompressed, hbundle⟩ := bundle_eq_ok.mp hb
  have hmem : data ∈ b.chunks := List.mem_of_getElem? hdata
  have hindex : index < b.chunks.length := (List.getElem?_eq_some_iff.mp hdata).1
  have hcount : b.chunks.length ≤ 64 := by
    rw [hbundle]
    exact chunksOf_length (encoded_length hcompressed)
  have hchunk := hmem
  rw [hbundle] at hchunk
  obtain ⟨hpos, hsize, hchars⟩ := chunksOf_size hchunk
  have htext := isBase64Text_of_mem hchars
  have hsha : Setup.isHex 64 b.sha256 = true := by
    rw [hbundle, hstd.sha]
    exact hstd.hex _
  have harchive : Setup.isHex 64 b.archiveSha256 = true := by
    rw [hbundle, hstd.sha]
    exact hstd.hex _
  apply delivers_run rfl rfl rfl hsha rfl (by decide)
  · intro log₁ h₁
    have hopen₁ : Open h b.sha256 log₁ := by
      unfold Open
      rw [h₁.files _ (Set.notMem_empty _)]
      exact hopen
    exact delivers_admit_chunk hopen₁ fun log₂ h₂ => ⟨rfl, h₁.trans h₂⟩
  · intro log₁ h₁
    apply delivers_proceed rfl harchive
    intro log₂ h₂
    rw [if_pos rfl]
    have hkept := h₁.trans h₂
    have hstored₂ : content (.chunk b.sha256 b.archiveSha256 index) log₂ = none ∨
        Stored b.sha256 b.archiveSha256 index data log₂ := by
      unfold Stored
      rw [hkept.files _ (Set.notMem_empty _)]
      exact hstored
    apply delivers_upload (chunkCall_chunk hindex hcount ⟨hpos, hsize⟩ htext) htext hstored₂
    intro log₃ h₃ hdone
    have hanswered : Keeps {.chunk b.sha256 b.archiveSha256 index} log₃ (⟨n, b.chunkCall index data, .answered⟩ :: log₃) :=
      keeps_cons (by rintro f' c ⟨⟩) (by rintro bundle ⟨⟩)
    refine ⟨((hkept.mono (Set.empty_subset _)).trans h₃).trans hanswered, ?_⟩
    unfold Stored at hdone ⊢
    rw [content_cons_of_ne (by rintro c ⟨⟩)]
    exact hdone

section Submit
variable {k : Call} {bundle archive : Text}

theorem delivers_readChunks {parts : List Text} {index : ℕ} {Q : Text → Log → Prop}
    (hparts : ∀ j data, parts[j]? = some data → Stored bundle archive (index + j) data log)
    (hQ : ∀ log', Keeps ∅ log log' → Q parts.flatten log') :
    Delivers (granted n k) (readChunks bundle archive index parts.length) Q log := by
  induction parts generalizing index log Q with
  | nil => exact hQ log (.refl _ _)
  | cons part parts ih =>
    obtain ⟨raw, hraw, hdecode⟩ := hparts 0 part rfl
    apply delivers_bind
    apply delivers_read hraw
    intro log₁ h₁
    apply delivers_bind
    apply delivers_ofOption hdecode
    apply delivers_bind
    apply ih
    · intro j data hj
      have hstored := hparts (j + 1) data hj
      unfold Stored at hstored ⊢
      rw [h₁.files _ (Set.notMem_empty _), Nat.add_assoc, Nat.add_comm 1 j]
      exact hstored
    · intro log₂ h₂
      exact hQ log₂ (h₁.trans h₂)

theorem unpack_bundle (hstd : Standard s h) (hb : s.newPrivateSourceBundle read = .ok b) :
    h.unpack b.chunks.flatten b.archiveSha256 b.sha256 = some (s.json (s.package read)) := by
  obtain ⟨-, hraw, hcompressed, rfl⟩ := bundle_eq_ok.mp hb
  have hsha : s.sha = h.sha := hstd.sha
  rw [Host.unpack, chunksOf_flatten, b64decode_b64encode, hsha]
  apply guard_bind_eq_some.mpr
  constructor
  · exact ⟨hcompressed, rfl⟩
  · rw [hstd.gzip _ hraw]
    exact guard_bind_eq_some.mpr ⟨⟨hraw, rfl⟩, rfl⟩

/-- The keys of a dictionary are its names. -/
theorem names_of_keys {names : List Text} {value : Text → Json} :
    ((names.map fun name => (name, value name)).map fun m => Json.str m.1).mapM (fun
      | .str name => some name
      | _ => none) = some names := by
  induction names with
  | nil => rfl
  | cons name names ih =>
    rw [List.map_cons, List.map_cons, List.mapM_cons, ih]
    rfl

theorem packed_bundle (hstd : Standard s h) : h.packed (s.json (s.package read)) = some (.obj (s.entries read)) := by
  rw [Host.packed]
  refine Option.bind_eq_some_iff.mpr ⟨s.package read, hstd.json read, ?_⟩
  refine guard_bind_eq_some.mpr ⟨rfl, ?_⟩
  refine Option.bind_eq_some_iff.mpr ⟨.str (text "private-azd-source-v1"), rfl, ?_⟩
  refine guard_bind_eq_some.mpr ⟨rfl, ?_⟩
  refine Option.bind_eq_some_iff.mpr ⟨.obj (s.entries read), rfl, Option.bind_eq_some_iff.mpr ⟨_, rfl, ?_⟩⟩
  refine Option.bind_eq_some_iff.mpr ⟨files, names_of_keys, guard_bind_eq_some.mpr ⟨⟨?_, ?_⟩, rfl⟩⟩
  · exact List.all_eq_true.mpr fun _ hname => decide_eq_true hname
  · exact List.all_eq_true.mpr fun _ hname => decide_eq_true hname

theorem body_entry (hstd : Standard s h) {name : Text} (hsize : (read name).length ≤ 262144) :
    h.body (.obj [(text "sha256", .str (s.sha (read name))), (text "base64", .str (b64encode false (read name)))]) =
      some (read name) := by
  have hsame : (Json.str (s.sha (read name))).same 0 (.str (h.sha (read name))) = true := by
    rw [hstd.sha]
    exact decide_eq_true rfl
  rw [Host.body]
  apply guard_bind_eq_some.mpr
  constructor
  · rfl
  · apply Option.bind_eq_some_iff.mpr
    refine ⟨.str (b64encode false (read name)), rfl, ?_⟩
    apply Option.bind_eq_some_iff.mpr
    refine ⟨read name, b64decode_b64encode _ _, ?_⟩
    apply Option.bind_eq_some_iff.mpr
    exact ⟨.str (s.sha (read name)), rfl, guard_bind_eq_some.mpr ⟨⟨hsize, hsame⟩, rfl⟩⟩

/-- The installed files of a bundle. -/
def installedFiles (bundle : Text) : Set File := {f | ∃ name, f = .installed bundle name}

theorem delivers_placeAll (hstd : Standard s h) {names : List Text} (hnames : names.Nodup)
    (hsize : ∀ name ∈ names, (read name).length ≤ 262144)
    (hnone : ∀ name ∈ names, content (.installed bundle name) log = none) {Q : Unit → Log → Prop}
    (hQ : ∀ log', Keeps (installedFiles bundle) log log' →
      (∀ name ∈ names, content (.installed bundle name) log' = some (read name)) →
      (∀ name ∉ names, content (.installed bundle name) log' = content (.installed bundle name) log) → Q () log') :
    Delivers (granted n k) (h.placeAll bundle (names.map fun name => (name, .obj [(text "sha256", .str (s.sha (read name))),
      (text "base64", .str (b64encode false (read name)))]))) Q log := by
  induction names generalizing log Q with
  | nil => exact hQ log (.refl _ _) (by simp) fun _ _ => rfl
  | cons name names ih =>
    obtain ⟨hnew, hnames⟩ := List.nodup_cons.mp hnames
    obtain ⟨hsize, hsizes⟩ := List.forall_mem_cons.mp hsize
    obtain ⟨hfirst, hothers⟩ := List.forall_mem_cons.mp hnone
    apply delivers_bind
    apply delivers_bind
    apply delivers_ofOption (body_entry hstd hsize)
    apply delivers_bind
    apply delivers_exists
    rw [hfirst]
    apply delivers_exclusive hfirst
    intro log₁ h₁ hplaced
    have hinstalled : {File.installed bundle name} ⊆ installedFiles bundle := by
      rintro f rfl
      exact ⟨name, rfl⟩
    have hother (name' : Text) (hne : name' ≠ name) :
        content (.installed bundle name') log₁ = content (.installed bundle name') log := by
      apply h₁.files
      rintro ⟨⟩
      exact hne rfl
    apply ih hnames hsizes
    · intro name' hmem
      rw [hother name' (by rintro rfl; exact hnew hmem)]
      exact hothers name' hmem
    · intro log₂ h₂ hplaceds hkept
      apply hQ log₂ ((h₁.mono hinstalled).trans h₂)
      · rw [List.forall_mem_cons, hkept name hnew]
        exact ⟨hplaced, hplaceds⟩
      · intro name' hmem
        rw [List.mem_cons, not_or] at hmem
        rw [hkept name' hmem.2, hother name' hmem.1]

/-- The host has nothing of the bundle but its chunks. -/
structure Clean (bundle : Text) (log : Log) : Prop where
  active : content .active log = none
  selected : hasFolder log (.selected bundle) = false
  raw : content (.bundle bundle) log = none
  installed : ∀ name ∈ files, content (.installed bundle name) log = none
  context : content (.context bundle) log = none

theorem Clean.keeps {log' : Log} (hclean : Clean bundle log) {fs : Set File} (hkeeps : Keeps fs log log')
    (hfs : ∀ f ∈ fs, ∃ archive index, f = .chunk bundle archive index) : Clean bundle log' := by
  have hother {f : File} (hf : ∀ archive index, f ≠ .chunk bundle archive index) :
      content f log' = content f log := by
    apply hkeeps.files
    intro hmem
    obtain ⟨archive, index, rfl⟩ := hfs f hmem
    exact hf archive index rfl
  constructor
  · rw [hother (by rintro _ _ ⟨⟩), hclean.active]
  · rw [hkeeps.selected, hclean.selected]
  · rw [hother (by rintro _ _ ⟨⟩), hclean.raw]
  · intro name hname
    rw [hother (by rintro _ _ ⟨⟩), hclean.installed name hname]
  · rw [hother (by rintro _ _ ⟨⟩), hclean.context]

/-- The bundle is in its directory, file by file, and its job was started. -/
structure Installed (s : Client) (h : Host) (read : Text → Bytes) (b : Bundle) (context : Bytes) (log : Log) : Prop where
  raw : content (.bundle b.sha256) log = some (s.json (s.package read))
  files : ∀ name ∈ files, content (.installed b.sha256 name) log = some (read name)
  active : content .active log = some context
  launched : ∃ e ∈ log, e.event = .launched b.sha256 (h.sha context)

theorem files_nodup : files.Nodup := by decide

theorem chunks_pos (hstd : Standard s h) (hb : s.newPrivateSourceBundle read = .ok b) : 1 ≤ b.chunks.length := by
  obtain ⟨-, -, -, rfl⟩ := bundle_eq_ok.mp hb
  by_contra hnone
  have hempty : chunksOf (b64encode false (s.gzip (s.json (s.package read)))) = [] :=
    List.eq_nil_of_length_eq_zero (Nat.lt_one_iff.mp (not_le.mp hnone))
  have hflatten := chunksOf_flatten (b64encode false (s.gzip (s.json (s.package read))))
  rw [hempty, List.flatten_nil] at hflatten
  have hdecode := b64decode_b64encode false (s.gzip (s.json (s.package read)))
  rw [← hflatten] at hdecode
  exact hstd.header _ (Option.some.inj hdecode).symm

/-- What `submit` does with the chunks of a bundle. -/
theorem submit_delivers (hstd : Standard s h) (hb : s.newPrivateSourceBundle read = .ok b) {target : Json}
    {context : Bytes} (hclean : Clean b.sha256 log)
    (hstored : ∀ index data, b.chunks[index]? = some data → Stored b.sha256 b.archiveSha256 index data log)
    (hcontext : h.context b.sha256 target = some context) :
    Delivers (granted n (b.submitCall target)) (h.submit (b.submitCall target) b.sha256 b.archiveSha256)
      (fun _ log' => Installed s h read b context log') log := by
  obtain ⟨hsizes, -, hcompressed, hbundle⟩ := bundle_eq_ok.mp hb
  have hcount : b.chunks.length ≤ 64 := by
    rw [hbundle]
    exact chunksOf_length (encoded_length hcompressed)
  have hpos := chunks_pos hstd hb
  have hinteger : (b.submitCall target).integer "count" = some (b.chunks.length : ℤ) := rfl
  apply delivers_bind
  apply delivers_ofOption hinteger
  apply delivers_bind
  apply delivers_need (by omega)
  rw [Int.toNat_natCast]
  apply delivers_bind
  apply delivers_readChunks (fun index data hdata => by rw [Nat.zero_add]; exact hstored index data hdata)
  intro log₁ h₁
  have hclean₁ : Clean b.sha256 log₁ := hclean.keeps h₁ (by rintro f ⟨⟩)
  apply delivers_bind
  apply delivers_ofOption (unpack_bundle hstd hb)
  apply delivers_bind
  apply delivers_ofOption (packed_bundle hstd)
  apply delivers_bind
  apply delivers_select hclean₁.selected hclean₁.raw
  intro log₂ h₂ hkept₂
  apply delivers_bind
  apply delivers_secure
  apply delivers_bind
  apply delivers_read hkept₂
  intro log₃ h₃
  have hkept₃ := (h₃.files _ (Set.notMem_empty _)).trans hkept₂
  have hother₃ {f : File} (hf : f ≠ .bundle b.sha256) : content f log₃ = content f log₁ :=
    (h₃.files f (Set.notMem_empty _)).trans (h₂ f hf)
  apply delivers_bind
  apply delivers_need rfl
  apply delivers_bind
  apply delivers_ofOption rfl
  apply delivers_bind
  apply delivers_placeAll hstd files_nodup hsizes
  · intro name hname
    rw [hother₃ (by rintro ⟨⟩), hclean₁.installed name hname]
  intro log₄ h₄ hplaced₄ _
  have hother₄ {f : File} (hf : ∀ name, f ≠ .installed b.sha256 name) : content f log₄ = content f log₃ := by
    apply h₄.files
    rintro ⟨name, hname⟩
    exact hf name hname
  apply delivers_bind
  apply delivers_freshHost
  apply delivers_bind
  apply delivers_ofOption rfl
  apply delivers_bind
  apply delivers_ofOption hcontext
  apply delivers_bind
  apply delivers_exclusive
  · rw [hother₄ (by rintro _ ⟨⟩), hother₃ (by rintro ⟨⟩), hclean₁.context]
  intro log₅ h₅ _
  apply delivers_bind
  apply delivers_exclusive
  · rw [h₅.files _ (by rintro ⟨⟩), hother₄ (by rintro _ ⟨⟩), hother₃ (by rintro ⟨⟩), hclean₁.active]
  intro log₆ h₆ hactive₆
  apply delivers_bind
  apply delivers_call (fun _ _ => granted_systemdRun) rfl
  apply delivers_bind
  apply delivers_need rfl
  apply delivers_call (fun _ _ => granted_status) rfl
  -- Everything in the directory is as it was put there.
  have hlast {f : File} (hcontext : f ≠ .context b.sha256) (hactive : f ≠ .active) :
      content f (⟨n, b.submitCall target, .launched b.sha256 (h.sha context)⟩ :: log₆) = content f log₄ := by
    rw [content_cons_of_ne (by rintro c ⟨⟩), h₆.files f hactive, h₅.files f hcontext]
  constructor
  · rw [hlast (by rintro ⟨⟩) (by rintro ⟨⟩), hother₄ (by rintro _ ⟨⟩), hkept₃]
  · intro name hname
    rw [hlast (by rintro ⟨⟩) (by rintro ⟨⟩), hplaced₄ name hname]
  · rw [content_cons_of_ne (by rintro c ⟨⟩), hactive₆]
  · exact ⟨_, List.mem_cons_self, rfl⟩

end Submit

section Uploads

/-- The calls upload the chunks of the bundle in this order, one process after another. Each of them comes to
its end, and after the last one `Q` holds. -/
def Uploads (h : Host) (b : Bundle) : List (ℕ × ℕ) → (Log → Prop) → Log → Prop
  | [], Q, log => Q log
  | (n, index) :: rest, Q, log => ∃ data, b.chunks[index]? = some data ∧
      Delivers (granted n (b.chunkCall index data)) (h.run (b.chunkCall index data)) (fun _ => Uploads h b rest Q) log

/-- No chunk of the bundle is there, but as it was sent. -/
def Unspoiled (b : Bundle) (log : Log) : Prop :=
  ∀ index data, b.chunks[index]? = some data →
    content (.chunk b.sha256 b.archiveSha256 index) log = none ∨ Stored b.sha256 b.archiveSha256 index data log

def chunkFiles (b : Bundle) : Set File := {f | ∃ index, f = .chunk b.sha256 b.archiveSha256 index}

theorem Unspoiled.upload {log' : Log} (hclear : Unspoiled b log) {index : ℕ} {data : Text}
    (hdata : b.chunks[index]? = some data)
    (hkeeps : Keeps {.chunk b.sha256 b.archiveSha256 index} log log')
    (hstored : Stored b.sha256 b.archiveSha256 index data log') :
    Unspoiled b log' ∧ ∀ i d, b.chunks[i]? = some d → Stored b.sha256 b.archiveSha256 i d log →
      Stored b.sha256 b.archiveSha256 i d log' := by
  have hother {i : ℕ} (hi : i ≠ index) : content (.chunk b.sha256 b.archiveSha256 i) log' =
      content (.chunk b.sha256 b.archiveSha256 i) log := by
    apply hkeeps.files
    rintro ⟨⟩
    exact hi rfl
  constructor
  · intro i d hd
    by_cases hi : i = index
    · subst hi
      obtain rfl := Option.some.inj (hd.symm.trans hdata)
      exact Or.inr hstored
    · unfold Stored
      rw [hother hi]
      exact hclear i d hd
  · intro i d hd hold
    by_cases hi : i = index
    · subst hi
      obtain rfl := Option.some.inj (hd.symm.trans hdata)
      exact hstored
    · unfold Stored at hold ⊢
      rw [hother hi]
      exact hold

/-- Chunks can be sent in any order and again. -/
theorem uploads_deliver (hstd : Standard s h) (hb : s.newPrivateSourceBundle read = .ok b) {order : List (ℕ × ℕ)}
    (horder : ∀ u ∈ order, u.2 < b.chunks.length) (hactive : content .active log = none) (hclear : Unspoiled b log)
    {Q : Log → Prop}
    (hQ : ∀ log', Keeps (chunkFiles b) log log' →
      (∀ index data, b.chunks[index]? = some data → (∃ u ∈ order, u.2 = index) ∨
        Stored b.sha256 b.archiveSha256 index data log → Stored b.sha256 b.archiveSha256 index data log') → Q log') :
    Uploads h b order Q log := by
  induction order generalizing log Q with
  | nil =>
    refine hQ log (.refl _ _) fun index data _ hstored => ?_
    rcases hstored with ⟨u, hu, -⟩ | hstored
    · cases hu
    · exact hstored
  | cons u order ih =>
    obtain ⟨n, index⟩ := u
    obtain ⟨hindex, horder⟩ := List.forall_mem_cons.mp horder
    have hdata : b.chunks[index]? = some b.chunks[index] := List.getElem?_eq_getElem hindex
    refine ⟨_, hdata, (chunk_delivers hstd hb hdata (Or.inl hactive) (hclear index _ hdata)).mono ?_⟩
    rintro - log₁ ⟨h₁, hstored₁⟩
    obtain ⟨hclear₁, hkept₁⟩ := hclear.upload hdata h₁ hstored₁
    have hsub : {File.chunk b.sha256 b.archiveSha256 index} ⊆ chunkFiles b := by
      rintro f rfl
      exact ⟨index, rfl⟩
    apply ih horder ((h₁.files _ (by rintro ⟨⟩)).trans hactive) hclear₁
    intro log₂ h₂ hall₂
    refine hQ log₂ ((h₁.mono hsub).trans h₂) fun i d hd hi => ?_
    rcases hi with ⟨u, hu, rfl⟩ | hold
    · rcases List.mem_cons.mp hu with rfl | hu
      · obtain rfl := Option.some.inj (hd.symm.trans hdata)
        exact hall₂ index _ hdata (Or.inr hstored₁)
      · exact hall₂ _ d hd (Or.inl ⟨u, hu, rfl⟩)
    · exact hall₂ i d hd (Or.inr (hkept₁ i d hd hold))

/-- The submission of a bundle whose chunks are all there. -/
theorem submission_delivers (hstd : Standard s h) (hb : s.newPrivateSourceBundle read = .ok b) {target : Json}
    {context : Bytes} (hclean : Clean b.sha256 log)
    (hstored : ∀ index data, b.chunks[index]? = some data → Stored b.sha256 b.archiveSha256 index data log)
    (hcontext : h.context b.sha256 target = some context) :
    Delivers (granted n (b.submitCall target)) (h.run (b.submitCall target))
      (fun _ log' => Installed s h read b context log') log := by
  obtain ⟨-, -, -, hbundle⟩ := bundle_eq_ok.mp hb
  have hsha : Setup.isHex 64 b.sha256 = true := by
    rw [hbundle, hstd.sha]
    exact hstd.hex _
  have harchive : Setup.isHex 64 b.archiveSha256 = true := by
    rw [hbundle, hstd.sha]
    exact hstd.hex _
  have hempty : ∀ f ∈ (∅ : Set File), ∃ archive index, f = .chunk b.sha256 archive index := by rintro f ⟨⟩
  apply delivers_run rfl rfl rfl hsha rfl (by decide)
  · intro log₁ h₁
    exact delivers_admit_fresh (hclean.keeps h₁ hempty).active ⟨rfl, h₁⟩
  · intro log₁ h₁
    apply delivers_proceed rfl harchive
    intro log₂ h₂
    rw [if_neg (by decide)]
    have hstored₂ (index : ℕ) (data : Text) (hdata : b.chunks[index]? = some data) :
        Stored b.sha256 b.archiveSha256 index data log₂ := by
      unfold Stored
      rw [(h₁.trans h₂).files _ (Set.notMem_empty _)]
      exact hstored index data hdata
    apply (submit_delivers hstd hb (hclean.keeps (h₁.trans h₂) hempty) hstored₂ hcontext).mono
    rintro - log₃ hinstalled
    have hanswered (f : File) : content f (⟨n, b.submitCall target, .answered⟩ :: log₃) = content f log₃ :=
      content_cons_of_ne (by rintro c ⟨⟩)
    obtain ⟨e, he, hevent⟩ := hinstalled.launched
    constructor
    · rw [hanswered, hinstalled.raw]
    · intro name hname
      rw [hanswered, hinstalled.files name hname]
    · rw [hanswered, hinstalled.active]
    · exact ⟨e, List.mem_cons_of_mem _ he, hevent⟩

end Uploads

section Refusal
variable {k : Call} {f : File} {c : Bytes}

/-- The calls that change a file. -/
def Op.stores : Op → Bool
  | .openNew _ | .write _ _ => true
  | _ => false

/-- Whatever is asked of the host and however it answers. -/
theorem content_performed {op : Op} {r : Reply} {log' : Log} (hop : op.stores = false)
    (h : performed n k op r log log') : content f log' = content f log := by
  obtain ⟨change, heffect, rfl⟩ := h
  have hstored {f : File} {c : Bytes} : change ≠ some (.stored f c) := by
    rintro rfl
    unfold effect at heffect
    cases op <;> cases r <;> simp_all [Op.stores]
  cases change with
  | none => rfl
  | some e =>
    apply content_cons_of_ne
    rintro c rfl
    exact hstored rfl

theorem ensures_reading {α : Type} {op : Op} {value : Reply → Option α} {Q : α → Log → Prop}
    (hop : op.stores = false) (hlog : content f log = some c) (hQ : ∀ a log', content f log' = some c → Q a log') :
    Ensures (performed n k) (fun l => content f l = some c) (invoke op value) Q log := by
  apply ensures_invoke
  intro r log' hr
  have hlog' := (content_performed hop hr).trans hlog
  exact ⟨hlog', fun a _ => hQ a log' hlog'⟩

theorem ensures_secure {what : Folder ⊕ File} {Q : Unit → Log → Prop} (hlog : content f log = some c)
    (hQ : ∀ log', content f log' = some c → Q () log') :
    Ensures (performed n k) (fun l => content f l = some c) (secure what) Q log := by
  apply ensures_bind
  apply ensures_reading rfl hlog
  intro safe log' hlog'
  exact ensures_need fun _ => hQ log' hlog'

theorem ensures_haveFolder {folder : Folder} {Q : Unit → Log → Prop} (hlog : content f log = some c)
    (hQ : ∀ log', content f log' = some c → Q () log') :
    Ensures (performed n k) (fun l => content f l = some c) (haveFolder folder) Q log := by
  apply ensures_bind
  apply ensures_reading rfl hlog
  intro made log' hlog'
  exact ensures_secure hlog' hQ

/-- A call to upload goes on to the upload, or is refused. -/
theorem ensures_admit_chunk {bundle : Text} {Q : Bool → Log → Prop} (hlog : content f log = some c)
    (hQ : ∀ log', content f log' = some c → Q false log') :
    Ensures (performed n k) (fun l => content f l = some c) ( h.admit k bundle (text "chunk")) Q log := by
  apply ensures_bind
  apply ensures_reading rfl hlog
  intro active log₁ h₁
  cases active with
  | true =>
    apply ensures_bind
    apply ensures_secure h₁
    intro log₂ h₂
    apply ensures_bind
    apply ensures_reading rfl h₂
    intro raw log₃ h₃
    apply ensures_bind
    apply ensures_ofOption
    intro old _
    apply ensures_bind
    apply ensures_ofOption
    intro named _
    apply ensures_bind
    apply ensures_need
    intro _
    exact hQ log₃ h₃
  | false =>
    apply ensures_bind
    apply ensures_reading rfl h₁
    intro installed log₂ h₂
    apply ensures_bind
    apply ensures_need
    intro _
    exact hQ log₂ h₂

theorem ensures_upload {bundle archive data other : Text} {index : ℕ} (hindex : k.integer "index" = some (index : ℤ))
    (hother : k.string "data" = some other) (hne : other ≠ data) (hdecode : decodeUtf8 false c = some data)
    (hlog : content (.chunk bundle archive index) log = some c) :
    Ensures (performed n k) (fun l => content (.chunk bundle archive index) l = some c) (upload k bundle archive)
      (fun _ _ => False) log := by
  apply ensures_bind
  apply ensures_ofOption
  rintro ⟨i, d⟩ hchunk
  -- What the call carries is the other data.
  rw [Call.chunk, hindex, hother] at hchunk
  simp only [Option.bind_eq_bind, Option.bind_eq_some_iff, Option.guard_eq_some', Option.pure_def, Option.some.injEq,
    Prod.mk.injEq] at hchunk
  obtain ⟨_, rfl, count, -, _, rfl, _, -, hi, rfl⟩ := hchunk
  obtain rfl : i = index := by omega
  apply ensures_bind
  apply ensures_invoke
  intro r log₁ hr
  have h₁ := (content_performed rfl hr).trans hlog
  refine ⟨h₁, fun there hvalue => ?_⟩
  obtain rfl : there = true := by
    obtain ⟨change, heffect, -⟩ := hr
    cases r with
    | yes b =>
      cases hvalue
      have heffect : there = true ∧ none = change := by simpa [effect, hlog] using heffect
      exact heffect.1
    | done | count | bytes | text => cases hvalue
  apply ensures_bind
  apply ensures_secure h₁
  intro log₂ h₂
  apply ensures_bind
  apply ensures_invoke
  intro r log₃ hr
  have h₃ := (content_performed rfl hr).trans h₂
  refine ⟨h₃, fun raw hvalue => ?_⟩
  obtain rfl : raw = c := by
    obtain ⟨change, heffect, -⟩ := hr
    cases r with
    | bytes b =>
      cases hvalue
      simp only [effect, h₂, Option.some.injEq, Option.ite_none_right_eq_some] at heffect
      exact heffect.1.symm
    | done | count | yes | text => cases hvalue
  exact ensures_need fun hsame => hne (Option.some.inj (hsame.symm.trans hdecode))

/-- No reply of the host makes it take other data for a chunk that is there. -/
theorem other_data_refused {bundle archive data other : Text} {index : ℕ}
    (hmode : k.string "mode" = some (text "chunk")) (hbundle : k.string "bundle_sha256" = some bundle)
    (harchive : k.string "archive_sha256" = some archive) (hindex : k.integer "index" = some (index : ℤ))
    (hother : k.string "data" = some other) (hne : other ≠ data) (hdecode : decodeUtf8 false c = some data)
    (hlog : content (.chunk bundle archive index) log = some c) :
    Ensures (performed n k) (fun l => content (.chunk bundle archive index) l = some c) (h.run k)
      (fun _ _ => False) log := by
  apply ensures_bind
  apply ensures_reading rfl hlog
  intro uid log₁ h₁
  apply ensures_bind
  apply ensures_need
  intro _
  apply ensures_bind
  apply ensures_ofOption
  intro bundle' hbundle'
  obtain rfl := Option.some.inj (hbundle'.symm.trans hbundle)
  apply ensures_bind
  apply ensures_need
  intro _
  apply ensures_bind
  apply ensures_haveFolder h₁
  intro log₂ h₂
  apply ensures_bind
  apply ensures_ofOption
  intro mode hmode'
  obtain rfl := Option.some.inj (hmode'.symm.trans hmode)
  apply ensures_bind
  apply ensures_need
  intro _
  apply ensures_bind
  apply ensures_admit_chunk h₂
  intro log₃ h₃
  apply ensures_bind
  apply ensures_bind
  apply ensures_haveFolder h₃
  intro log₄ h₄
  apply ensures_bind
  apply ensures_haveFolder h₄
  intro log₅ h₅
  apply ensures_bind
  apply ensures_ofOption
  intro archive' harchive'
  obtain rfl := Option.some.inj (harchive'.symm.trans harchive)
  apply ensures_bind
  apply ensures_need
  intro _
  apply ensures_bind
  apply ensures_haveFolder h₅
  intro log₆ h₆
  rw [if_pos rfl]
  exact (ensures_upload hindex hother hne hdecode h₆).mono fun _ _ hfalse => hfalse.elim

end Refusal

end Relay

section Sample

def sampleWriter : Writer where
  depth := 8
  ascii := true
  sorted := false
  nan := false
  comma := text ","
  colon := text ":"

def sampleRelay : Host where
  room := 8
  float := id
  sha _ := List.replicate 64 97
  gunzip raw := some raw.tail

def sampleClient : Client where
  json v := (sampleWriter.dumpsBytes v).toOption.getD []
  gzip raw := 31 :: raw
  sha _ := List.replicate 64 97

theorem package_leaves {P : Json → Prop} (hP : ∀ t, P (.str t)) (s : Client) (read : Text → Bytes) :
    (s.package read).Leaves P 8 := by
  simp only [Client.package, Client.entries, Json.Leaves, List.forall_mem_cons, List.forall_mem_map, List.not_mem_nil,
    false_imp_iff, implies_true, and_true]
  exact ⟨hP _, fun name _ => ⟨hP _, hP _⟩⟩

theorem finite_of_strings {v : Json} (h : NonFinite v) (d : ℕ) : ¬ v.Leaves (fun leaf => ∃ t, leaf = .str t) d := by
  induction h generalizing d with
  | float repr => rw [Json.Leaves.scalar rfl]; simp
  | item items item hitem _ ih =>
    cases d with
    | zero => simp [Json.Leaves]
    | succ d => exact fun hleaves => ih d (hleaves item hitem)
  | member members m hmember _ ih =>
    cases d with
    | zero => simp [Json.Leaves]
    | succ d => exact fun hleaves => ih d (hleaves m hmember)

theorem package_plain (read : Text → Bytes) :
    (sampleClient.package read).Plain (.standard 8 id) sampleWriter 8 := by
  have hscalar {t : Text} (ht : isBase64Text t = true) : ∀ c ∈ t, isScalar c = true := by
    intro c hc
    have hchar := List.all_eq_true.mp ht c hc
    simp only [isDigit, Bool.or_eq_true, Bool.and_eq_true, decide_eq_true_eq] at hchar
    simp only [isScalar, isSurrogate, Bool.and_eq_true, decide_eq_true_eq, Bool.not_eq_true', Bool.and_eq_false_iff,
      decide_eq_false_iff_not]
    omega
  have hname : ∀ name ∈ files, ∀ c ∈ name, isScalar c = true := by decide
  have hsha : ∀ c ∈ List.replicate 64 97, isScalar c = true := by decide
  have hpairs {members : Members} (hkeys : (members.map Prod.fst).Nodup) :
      (Reader.standard 8 id).pairs members = .ok members := congrArg Except.ok (dictPairs_of_nodup hkeys)
  have htwo {a b : Text} {v v' : Json} (hne : a ≠ b) :
      (Reader.standard 8 id).pairs [(a, v), (b, v')] = .ok [(a, v), (b, v')] := hpairs (by simp [hne])
  have hstring {t : Text} {d : ℕ} (ht : ∀ c ∈ t, isScalar c = true) :
      (Json.str t).Plain (.standard 8 id) sampleWriter d := by
    cases d <;> exact ht
  have hkeys : ((sampleClient.entries read).map Prod.fst).Nodup := by
    rw [Client.entries, List.map_map]
    exact (List.map_id files).symm ▸ files_nodup
  refine ⟨by rintro ⟨⟩, htwo (by decide), ?_⟩
  simp only [List.forall_mem_cons, List.not_mem_nil, false_imp_iff, implies_true, and_true]
  refine ⟨⟨by decide, hstring (by decide)⟩, by decide, by rintro ⟨⟩, hpairs hkeys, ?_⟩
  rw [Client.entries, List.forall_mem_map]
  intro name hmem
  refine ⟨hname name hmem, by rintro ⟨⟩, htwo (by decide), ?_⟩
  simp only [List.forall_mem_cons, List.not_mem_nil, false_imp_iff, implies_true, and_true]
  exact ⟨⟨by decide, hstring hsha⟩, by decide, hstring (hscalar (isBase64Text_of_mem fun _ hc => hc))⟩

theorem sample_standard : Standard sampleClient sampleRelay where
  sha := rfl
  hex _ := by
    show Setup.isHex 64 (List.replicate 64 97) = true
    decide
  json read := by
    have hcomma : Separator 44 (text ",") := ⟨[], rfl, by simp⟩
    have hcolon : Separator 58 (text ":") := ⟨[], rfl, by simp⟩
    have hplain := package_plain read
    rcases dumpsBytes_refuses (w := sampleWriter) rfl rfl hcomma hcolon
      (package_leaves (fun _ => trivial) sampleClient read) hplain.leaves with ⟨-, raw, hraw⟩ | ⟨hrefused, -⟩
    · have hloads := loadsBytes_dumpsBytes rfl hcomma hcolon hraw hplain le_rfl
      have hjson : sampleClient.json (sampleClient.package read) = raw := by
        show (sampleWriter.dumpsBytes (sampleClient.package read)).toOption.getD [] = raw
        rw [hraw]
        rfl
      rw [hjson]
      exact congrArg Except.toOption hloads
    · exact absurd (package_leaves (fun t => ⟨t, rfl⟩) sampleClient read) (finite_of_strings hrefused 8)
  gzip _ _ := rfl
  header _ := List.cons_ne_nil _ _

theorem sample_bundle : ∃ b, sampleClient.newPrivateSourceBundle (fun _ => []) = .ok b := by
  have hraw : (sampleClient.json (sampleClient.package fun _ => [])).length ≤ 4096 := by decide +kernel
  have hgzip : (sampleClient.gzip (sampleClient.json (sampleClient.package fun _ => []))).length ≤ 1048576 := by
    have hlength (raw : Bytes) : (sampleClient.gzip raw).length = raw.length + 1 := rfl
    rw [hlength]
    omega
  exact ⟨_, bundle_eq_ok.mpr ⟨fun _ _ => Nat.zero_le _, hraw.trans (by norm_num), hgzip, rfl⟩⟩

end Sample
end Install

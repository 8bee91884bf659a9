import AzdSanta.Install.Transport

/-! The bundle that `New-PrivateSourceBundle` makes of the source, and its chunks. -/
namespace Install
open Python

/-- What the client computes with. -/
structure Client where
  /-- The UTF-8 of `ConvertTo-Json -Depth 6 -Compress`. -/
  json : Json → Bytes
  /-- What a `GZipStream` leaves in its stream. -/
  gzip : Bytes → Bytes
  /-- `Convert.ToHexStringLower(SHA256.HashData(bytes))`. -/
  sha : Bytes → Text

structure Bundle where
  sha256 : Text
  archiveSha256 : Text
  chunks : List Text

/-- `$entries`. -/
def Client.entries (s : Client) (read : Text → Bytes) : Members :=
  files.map fun name => (name, .obj [(text "sha256", .str (s.sha (read name))),
    (text "base64", .str (b64encode false (read name)))])

def Client.package (s : Client) (read : Text → Bytes) : Json :=
  .obj [(text "scope", .str (text "private-azd-source-v1")), (text "files", .obj (s.entries read))]

def chunkSize : ℕ := 24576

/-- The loop over the substrings of `$encoded`. -/
def chunksOf (encoded : Text) : List Text :=
  (List.range ((encoded.length + (chunkSize - 1)) / chunkSize)).map fun i =>
    (encoded.drop (i * chunkSize)).take (min chunkSize (encoded.length - i * chunkSize))

/-- `New-PrivateSourceBundle`, of the files as `ReadAllBytes` reads them. -/
def Client.newPrivateSourceBundle (s : Client) (read : Text → Bytes) : Except String Bundle := do
  if files.any fun name => (read name).length > 262144 then throw "Installer source file exceeded bound."
  let raw := s.json (s.package read)
  if raw.length > 2097152 then throw "Installer bundle exceeded bound."
  let compressed := s.gzip raw
  if compressed.length > 1048576 then throw "Compressed installer bundle exceeded bound."
  let chunks := chunksOf (b64encode false compressed)
  if chunks.length > 64 then throw "Too many bounded installer chunks."
  return ⟨s.sha raw, s.sha compressed, chunks⟩

/-- The command that carries chunk `index`, as the host parses it. -/
def Bundle.chunkCall (b : Bundle) (index : ℕ) (data : Text) : Call where
  euid := 0
  value := [(text "mode", .str (text "chunk")), (text "bundle_sha256", .str b.sha256),
    (text "archive_sha256", .str b.archiveSha256), (text "index", .int index),
    (text "count", .int b.chunks.length), (text "data", .str data)]

def Bundle.submitCall (b : Bundle) (target : Json) : Call where
  euid := 0
  value := [(text "mode", .str (text "submit")), (text "bundle_sha256", .str b.sha256),
    (text "archive_sha256", .str b.archiveSha256), (text "count", .int b.chunks.length), (text "target", target)]

section Chunks

theorem chunksOf_length {encoded : Text} (h : encoded.length ≤ 1398104) : (chunksOf encoded).length ≤ 64 := by
  rw [chunksOf, List.length_map, List.length_range]
  unfold chunkSize
  omega

theorem chunksOf_flatten (encoded : Text) : (chunksOf encoded).flatten = encoded := by
  have htake (n : ℕ) : ((List.range n).map fun i =>
      (encoded.drop (i * chunkSize)).take (min chunkSize (encoded.length - i * chunkSize))).flatten =
      encoded.take (n * chunkSize) := by
    induction n with
    | zero => simp
    | succ n ih =>
      have hmin : (encoded.drop (n * chunkSize)).take (min chunkSize (encoded.length - n * chunkSize)) =
          (encoded.drop (n * chunkSize)).take chunkSize := by
        rcases le_total chunkSize (encoded.length - n * chunkSize) with h | h
        · rw [min_eq_left h]
        · rw [min_eq_right h, List.take_of_length_le (by simp), List.take_of_length_le (by simpa using h)]
      rw [List.range_succ, List.map_append, List.flatten_append, ih, List.map_singleton, List.flatten_singleton, hmin,
        Nat.succ_mul, List.take_add]
  rw [chunksOf, htake, List.take_of_length_le]
  unfold chunkSize
  omega

/-- A chunk has a character and is of the size the host takes. -/
theorem chunksOf_size {encoded chunk : Text} (h : chunk ∈ chunksOf encoded) :
    0 < chunk.length ∧ chunk.length ≤ chunkSize ∧ ∀ c ∈ chunk, c ∈ encoded := by
  obtain ⟨i, hi, rfl⟩ := List.mem_map.mp h
  rw [List.mem_range] at hi
  have hlength : i * chunkSize < encoded.length := by
    unfold chunkSize at hi ⊢
    omega
  rw [List.length_take, List.length_drop]
  refine ⟨?_, ?_, ?_⟩
  · unfold chunkSize at hlength ⊢
    omega
  · omega
  · intro c hc
    exact List.mem_of_mem_drop (List.mem_of_mem_take hc)

theorem b64encode_chars (raw : Bytes) : ∀ c ∈ b64encode false raw, c = 61 ∨ ∃ n < 64, c = sextetChar false n := by
  have hsextet {n : ℕ} (hn : n < 64) : sextetChar false n = 61 ∨ ∃ m < 64, sextetChar false n = sextetChar false m :=
    Or.inr ⟨n, hn, rfl⟩
  induction raw using b64encode.induct with
  | case1 => simp [b64encode]
  | case2 a =>
    have ha := a.toNat_lt
    simp only [b64encode, List.forall_mem_cons, List.not_mem_nil, false_imp_iff, implies_true, true_or, and_true]
    exact ⟨hsextet (by omega), hsextet (by omega)⟩
  | case3 a b =>
    have ha := a.toNat_lt
    have hb := b.toNat_lt
    simp only [b64encode, List.forall_mem_cons, List.not_mem_nil, false_imp_iff, implies_true, true_or, and_true]
    exact ⟨hsextet (by omega), hsextet (by omega), hsextet (by omega)⟩
  | case4 a b c rest ih =>
    have ha := a.toNat_lt
    have hb := b.toNat_lt
    have hc := c.toNat_lt
    simp only [b64encode, List.forall_mem_cons]
    exact ⟨hsextet (by omega), hsextet (by omega), hsextet (by omega), hsextet (by omega), ih⟩

theorem sextetChar_text : ∀ n < 64, (isDigit (sextetChar false n) || (65 ≤ sextetChar false n && sextetChar false n ≤ 90) ||
    (97 ≤ sextetChar false n && sextetChar false n ≤ 122) || sextetChar false n = 43 || sextetChar false n = 47 ||
    sextetChar false n = 61) = true := by
  decide

theorem isBase64Text_of_mem {raw : Bytes} {data : Text} (h : ∀ c ∈ data, c ∈ b64encode false raw) :
    isBase64Text data = true := by
  apply List.all_eq_true.mpr
  intro c hc
  rcases b64encode_chars raw c (h c hc) with rfl | ⟨n, hn, rfl⟩
  · rfl
  · exact sextetChar_text n hn

end Chunks

end Install

import AzdSanta.Python.Base64

/-! `Protect-IntuneContent` and `Send-BlockBlob`: the encrypted content of a package and its upload. -/
namespace Intune
open Python

/-- What the functions use of .NET cryptography. -/
structure Crypto where
  /-- AES-CBC with padding, of a text under a key and an initialization vector. -/
  encrypt : Bytes → Bytes → Bytes → Bytes
  decrypt : Bytes → Bytes → Bytes → Option Bytes
  decrypt_encrypt : ∀ key iv plain, decrypt key iv (encrypt key iv plain) = some plain
  /-- The pieces in which a `CryptoStream` writes the encryption, up to its final block. -/
  writes : Bytes → Bytes → Bytes → List Bytes
  writes_flatten : ∀ key iv plain, (writes key iv plain).flatten = encrypt key iv plain
  /-- HMAC-SHA256. -/
  hmac : Bytes → Bytes → Bytes
  hmac_length : ∀ key data, (hmac key data).length = 32
  sha256 : Bytes → Bytes

/-- `IO.MemoryStream`. -/
structure MemoryStream where
  data : Bytes
  position : ℕ

/-- `Write`, which overwrites what is there and extends the stream. -/
def MemoryStream.write (s : MemoryStream) (bytes : Bytes) : MemoryStream where
  data := (s.data ++ List.replicate (s.position - s.data.length) 0).take s.position ++ bytes ++
    s.data.drop (s.position + bytes.length)
  position := s.position + bytes.length

/-- `Position`. -/
def MemoryStream.seek (s : MemoryStream) (position : ℕ) : MemoryStream := { s with position := position }

/-- The bytes from the position on, which `ComputeHash` reads. -/
def MemoryStream.rest (s : MemoryStream) : Bytes := s.data.drop s.position

/-- The keys and the initialization vector that are generated. -/
structure Draws where
  encryptionKey : Bytes
  macKey : Bytes
  initializationVector : Bytes

/-- `microsoft.graph.fileEncryptionInfo`. -/
structure EncryptionInfo where
  encryptionKey : Text
  initializationVector : Text
  mac : Text
  macKey : Text
  profileIdentifier : Text
  fileDigest : Text
  fileDigestAlgorithm : Text
  deriving DecidableEq

structure ProtectedContent where
  bytes : Bytes
  info : EncryptionInfo

/-- `$hmac.HashSize / 8`. -/
def hmacLength : ℕ := 256 / 8

/-- `Convert.ToBase64String`. -/
def toBase64String (bytes : Bytes) : Text := b64encode false bytes

/-- The target when the header is reserved and the file is encrypted behind it. -/
def encryptedTarget (c : Crypto) (d : Draws) (file : Bytes) : MemoryStream :=
  let target : MemoryStream := ⟨[], 0⟩
  let target := target.write (List.replicate (hmacLength + d.initializationVector.length) 0)
  (c.writes d.encryptionKey d.initializationVector file).foldl MemoryStream.write target

/-- `Protect-IntuneContent`, of the content of a file. -/
def protectIntuneContent (c : Crypto) (d : Draws) (file : Bytes) : ProtectedContent :=
  let target := ((encryptedTarget c d file).seek hmacLength).write d.initializationVector
  let target := target.seek hmacLength
  let mac := c.hmac d.macKey target.rest
  let target := (target.seek 0).write mac
  { bytes := target.data
    info := {
      encryptionKey := toBase64String d.encryptionKey
      initializationVector := toBase64String d.initializationVector
      mac := toBase64String mac
      macKey := toBase64String d.macKey
      profileIdentifier := text "ProfileVersion1"
      fileDigest := toBase64String (c.sha256 file)
      fileDigestAlgorithm := text "SHA256" } }

/-- What the code of the content covers: the vector and the encryption. -/
def authenticated (c : Crypto) (d : Draws) (file : Bytes) : Bytes :=
  d.initializationVector ++ c.encrypt d.encryptionKey d.initializationVector file

/-- How the content is read with the reported information. -/
def readContent (c : Crypto) (content : ProtectedContent) : Option Bytes := do
  let encryptionKey ← b64decode false content.info.encryptionKey
  let initializationVector ← b64decode false content.info.initializationVector
  let mac ← b64decode false content.info.mac
  let macKey ← b64decode false content.info.macKey
  let fileDigest ← b64decode false content.info.fileDigest
  guard (content.bytes.take mac.length = mac)
  guard (c.hmac macKey (content.bytes.drop mac.length) = mac)
  guard ((content.bytes.drop mac.length).take initializationVector.length = initializationVector)
  let file ← c.decrypt encryptionKey initializationVector
    (content.bytes.drop (mac.length + initializationVector.length))
  guard (c.sha256 file = fileDigest)
  return file

section Layout

@[simp] theorem MemoryStream.seek_data (s : MemoryStream) (position : ℕ) : (s.seek position).data = s.data := rfl

theorem MemoryStream.seek_rest (s : MemoryStream) (position : ℕ) : (s.seek position).rest = s.data.drop position := rfl

/-- At the end of the stream a write appends. -/
theorem write_end {s : MemoryStream} (h : s.position = s.data.length) (bytes : Bytes) :
    s.write bytes = ⟨s.data ++ bytes, (s.data ++ bytes).length⟩ := by
  unfold MemoryStream.write
  rw [h]
  simp

theorem writes_end {s : MemoryStream} (h : s.position = s.data.length) (parts : List Bytes) :
    parts.foldl MemoryStream.write s = ⟨s.data ++ parts.flatten, (s.data ++ parts.flatten).length⟩ := by
  induction parts generalizing s with
  | nil =>
    obtain ⟨data, position⟩ := s
    simpa using h
  | cons part parts ih =>
    rw [List.foldl_cons, write_end h, ih rfl]
    simp

/-- A write inside the stream replaces what stands there. -/
theorem write_inside (before old new after : Bytes) (h : new.length = old.length) :
    (MemoryStream.write ⟨before ++ (old ++ after), before.length⟩ new).data = before ++ (new ++ after) := by
  have hdrop : (before ++ (old ++ after)).drop (before.length + new.length) = after := by
    rw [h, ← List.append_assoc, ← List.length_append, List.drop_left]
  have htake : (before ++ (old ++ after) ++ List.replicate (before.length - (before ++ (old ++ after)).length) 0).take
      before.length = before := by
    rw [List.append_assoc, List.take_left]
  show _ ++ new ++ _ = _
  rw [hdrop, htake, List.append_assoc]

theorem encryptedTarget_data (c : Crypto) (d : Draws) (file : Bytes) :
    (encryptedTarget c d file).data = List.replicate hmacLength 0 ++
      (List.replicate d.initializationVector.length 0 ++ c.encrypt d.encryptionKey d.initializationVector file) := by
  unfold encryptedTarget
  dsimp only
  rw [write_end rfl, writes_end rfl, c.writes_flatten]
  show [] ++ List.replicate _ 0 ++ _ = _
  rw [List.nil_append, List.replicate_add, List.append_assoc]

/-- The vector takes its place in the header. -/
theorem vector_data (c : Crypto) (d : Draws) (file : Bytes) :
    (((encryptedTarget c d file).seek hmacLength).write d.initializationVector).data =
      List.replicate hmacLength 0 ++ authenticated c d file := by
  have hinside := write_inside (List.replicate hmacLength 0) (List.replicate d.initializationVector.length 0)
    d.initializationVector (c.encrypt d.encryptionKey d.initializationVector file) List.length_replicate.symm
  rw [List.length_replicate] at hinside
  rw [MemoryStream.seek, encryptedTarget_data]
  exact hinside

/-- The content is the code, the vector and the encryption, in this order. -/
theorem protect_layout (c : Crypto) (d : Draws) (file : Bytes) :
    (protectIntuneContent c d file).bytes =
        c.hmac d.macKey (authenticated c d file) ++ authenticated c d file ∧
      (protectIntuneContent c d file).info.mac = toBase64String (c.hmac d.macKey (authenticated c d file)) := by
  have hdata := vector_data c d file
  have hrest : ((((encryptedTarget c d file).seek hmacLength).write d.initializationVector).seek hmacLength).rest =
      authenticated c d file := by
    rw [MemoryStream.seek_rest, hdata]
    exact List.drop_left' List.length_replicate
  have hmac : (c.hmac d.macKey (authenticated c d file)).length = (List.replicate hmacLength (0 : UInt8)).length := by
    rw [c.hmac_length, List.length_replicate]
    rfl
  constructor
  · have hinside := write_inside [] (List.replicate hmacLength 0) (c.hmac d.macKey (authenticated c d file))
      (authenticated c d file) hmac
    show (MemoryStream.write (MemoryStream.seek _ 0) (c.hmac d.macKey _)).data = _
    rw [hrest]
    rw [MemoryStream.seek, MemoryStream.seek_data, hdata]
    exact hinside
  · show toBase64String (c.hmac d.macKey _) = _
    rw [hrest]

/-- Reading with the reported information returns the file. -/
theorem readContent_protect (c : Crypto) (d : Draws) (file : Bytes) :
    readContent c (protectIntuneContent c d file) = some file := by
  obtain ⟨hbytes, hmac⟩ := protect_layout c d file
  have hencoded (raw : Bytes) : b64decode false (toBase64String raw) = some raw := b64decode_b64encode false raw
  have hinfo : (protectIntuneContent c d file).info.encryptionKey = toBase64String d.encryptionKey ∧
      (protectIntuneContent c d file).info.initializationVector = toBase64String d.initializationVector ∧
      (protectIntuneContent c d file).info.macKey = toBase64String d.macKey ∧
      (protectIntuneContent c d file).info.fileDigest = toBase64String (c.sha256 file) := ⟨rfl, rfl, rfl, rfl⟩
  obtain ⟨hkey, hvector, hmacKey, hdigest⟩ := hinfo
  unfold readContent
  rw [hkey, hvector, hmac, hmacKey, hdigest, hbytes]
  simp [hencoded, authenticated, ← List.drop_drop, c.decrypt_encrypt, guard]

end Layout

section Upload

/-- `4MB`. -/
def blockSize : ℕ := 4 * 1024 * 1024

/-- `'{0:d6}' -f n`. -/
def sixDigits (n : ℕ) : Text := List.replicate (6 - (decimal n).length) 48 ++ decimal n

/-- `$blockId` of a block, by its number; UTF-8 of digits is one byte each. -/
def blockId (n : ℕ) : Text := toBase64String ((sixDigits n).map UInt8.ofNat)

/-- The loop over the blocks from an offset on. -/
def blocksFrom (bytes : Bytes) (offset : ℕ) : List (Text × Bytes) :=
  if offset < bytes.length then
    let length := min blockSize (bytes.length - offset)
    let block := (bytes.drop offset).take length
    (blockId (offset / blockSize), block) :: blocksFrom bytes (offset + blockSize)
  else []
termination_by bytes.length - offset
decreasing_by
  unfold blockSize
  omega

def isUnreserved (c : ℕ) : Bool :=
  isDigit c || (65 ≤ c && c ≤ 90) || (97 ≤ c && c ≤ 122) || c = 45 || c = 46 || c = 95 || c = 126

/-- `[Uri]::EscapeDataString`. -/
def escapeDataString (s : Text) : Text :=
  s.flatMap fun c => if isUnreserved c then [c] else (utf8Char c).flatMap fun b =>
    [37, upperDigit (b.toNat / 16), upperDigit (b.toNat % 16)]
where
  upperDigit (n : ℕ) : ℕ := if n < 10 then 48 + n else 55 + n

/-- A PUT of `Send-BlockBlob`. -/
inductive Put where
  | block (uri : Text) (body : Bytes)
  | blockList (uri : Text) (body : Text)
  deriving DecidableEq

/-- `$xml`. -/
def blockListXml (blockIds : List Text) : Text :=
  text "<?xml version=\"1.0\" encoding=\"utf-8\"?><BlockList>" ++
    blockIds.flatMap (fun id => text "<Latest>" ++ id ++ text "</Latest>") ++ text "</BlockList>"

/-- `Send-BlockBlob`, as the requests it makes. -/
def sendBlockBlob (sasUri : Text) (bytes : Bytes) : List Put :=
  let blocks := blocksFrom bytes 0
  blocks.map (fun b => .block (sasUri ++ text "&comp=block&blockid=" ++ escapeDataString b.1) b.2) ++
    [.blockList (sasUri ++ text "&comp=blocklist") (blockListXml (blocks.map Prod.fst))]

theorem sixDigits_length {n : ℕ} (hn : n < 1000000) : (sixDigits n).length = 6 := by
  have hlength := decimal_length_le (n := n) (k := 5) hn
  simp only [sixDigits, List.length_append, List.length_replicate]
  omega

theorem readDecimal_sixDigits (n : ℕ) : readDecimal (sixDigits n) = n := by
  unfold readDecimal sixDigits
  rw [List.reverse_append, List.map_append, Nat.ofDigits_append, List.reverse_replicate, List.map_replicate,
    Nat.ofDigits_replicate_zero, Nat.mul_zero, Nat.add_zero]
  exact readDecimal_decimal n

theorem isDigit_of_mem_sixDigits {n c : ℕ} (h : c ∈ sixDigits n) : isDigit c = true := by
  rcases List.mem_append.mp h with h | h
  · rw [List.eq_of_mem_replicate h]
    rfl
  · exact isDigit_of_mem_decimal h

theorem map_toNat_sixDigits (n : ℕ) : ((sixDigits n).map UInt8.ofNat).map UInt8.toNat = sixDigits n := by
  rw [List.map_map]
  conv_rhs => rw [← List.map_id (sixDigits n)]
  apply List.map_congr_left
  intro c hc
  have hdigit := isDigit_of_mem_sixDigits hc
  simp only [isDigit, Bool.and_eq_true, decide_eq_true_eq] at hdigit
  exact toNat_ofNat_of_lt (by omega)

theorem blockId_injective {m n : ℕ} (h : blockId m = blockId n) : m = n := by
  have hbytes : (sixDigits m).map UInt8.ofNat = (sixDigits n).map UInt8.ofNat := by
    apply Option.some.inj
    rw [← b64decode_b64encode false, ← b64decode_b64encode false]
    exact congrArg _ h
  rw [← readDecimal_sixDigits m, ← readDecimal_sixDigits n, ← map_toNat_sixDigits m, hbytes, map_toNat_sixDigits]

theorem blockId_length {n : ℕ} (hn : n < 1000000) : (blockId n).length = 8 := by
  unfold blockId toBase64String
  rw [b64encode_length, List.length_map, sixDigits_length hn]

theorem isUnreserved_sextetChar {n : ℕ} (hn : n < 62) : isUnreserved (sextetChar false n) = true := by
  unfold sextetChar
  split_ifs <;> simp only [isUnreserved, isDigit, Bool.or_eq_true, Bool.and_eq_true, decide_eq_true_eq] <;> omega

/-- The base64 of digits, three at a time, has letters and digits only. -/
theorem isUnreserved_b64encode {raw : Bytes} (hdigits : ∀ b ∈ raw, 48 ≤ b.toNat ∧ b.toNat ≤ 57)
    (hlength : raw.length % 3 = 0) : ∀ c ∈ b64encode false raw, isUnreserved c = true := by
  induction raw using b64encode.induct with
  | case1 => simp [b64encode]
  | case2 a => simp at hlength
  | case3 a b => simp at hlength
  | case4 a b c rest ih =>
    have ha := hdigits a (by simp)
    have hb := hdigits b (by simp)
    have hc := hdigits c (by simp)
    have hrest := ih (fun d hd => hdigits d (by simp [hd])) (by simp only [List.length_cons] at hlength; omega)
    rw [b64encode]
    intro d hd
    simp only [List.mem_cons] at hd
    rcases hd with rfl | rfl | rfl | rfl | hd
    · exact isUnreserved_sextetChar (by omega)
    · exact isUnreserved_sextetChar (by omega)
    · exact isUnreserved_sextetChar (by omega)
    · exact isUnreserved_sextetChar (by omega)
    · exact hrest d hd

theorem escapeDataString_blockId {n : ℕ} (hn : n < 1000000) : escapeDataString (blockId n) = blockId n := by
  have hdigits : ∀ b ∈ (sixDigits n).map UInt8.ofNat, 48 ≤ b.toNat ∧ b.toNat ≤ 57 := by
    intro b hb
    have hmem : b.toNat ∈ sixDigits n := by
      rw [← map_toNat_sixDigits n]
      exact List.mem_map_of_mem hb
    simpa [isDigit] using isDigit_of_mem_sixDigits hmem
  have hplain : ∀ c ∈ blockId n, isUnreserved c = true := by
    apply isUnreserved_b64encode hdigits
    rw [List.length_map, sixDigits_length hn]
  unfold escapeDataString
  generalize blockId n = id at hplain
  induction id with
  | nil => rfl
  | cons c id ih =>
    rw [List.flatMap_cons, if_pos (hplain c List.mem_cons_self), ih fun c hc => hplain c (List.mem_cons_of_mem _ hc)]
    rfl

theorem blocksFrom_done {bytes : Bytes} {offset : ℕ} (h : bytes.length ≤ offset) : blocksFrom bytes offset = [] := by
  rw [blocksFrom, if_neg (by omega)]

theorem blocksFrom_next {bytes : Bytes} {k : ℕ} (h : k * blockSize < bytes.length) :
    blocksFrom bytes (k * blockSize) =
      (blockId k, (bytes.drop (k * blockSize)).take blockSize) :: blocksFrom bytes ((k + 1) * blockSize) := by
  have hpositive : 0 < blockSize := by
    unfold blockSize
    omega
  have hblock : (bytes.drop (k * blockSize)).take (min blockSize (bytes.length - k * blockSize)) =
      (bytes.drop (k * blockSize)).take blockSize := by
    rw [← List.length_drop, ← List.take_eq_take_min]
  rw [blocksFrom, if_pos h, Nat.mul_div_cancel _ hpositive, Nat.succ_mul]
  dsimp only
  rw [hblock]

/-- The blocks have consecutive numbers, and together they are the rest of the bytes. -/
theorem blocksFrom_spec (bytes : Bytes) (k : ℕ) :
    ∃ n, (blocksFrom bytes (k * blockSize)).map Prod.fst = (List.range' k n).map blockId ∧
      (0 < n → (k + n - 1) * blockSize < bytes.length) ∧
      ((blocksFrom bytes (k * blockSize)).map Prod.snd).flatten = bytes.drop (k * blockSize) := by
  induction hrest : bytes.length - k * blockSize using Nat.strong_induction_on generalizing k with
  | h rest ih =>
    by_cases h : k * blockSize < bytes.length
    · have hpositive : 0 < blockSize := by
        unfold blockSize
        omega
      have hnext : (k + 1) * blockSize = k * blockSize + blockSize := Nat.succ_mul _ _
      obtain ⟨n, hids, hlast, hbytes⟩ := ih _ (by omega) (k + 1) rfl
      rw [blocksFrom_next h]
      refine ⟨n + 1, ?_, fun _ => ?_, ?_⟩
      · rw [List.map_cons, hids, List.range'_succ, List.map_cons]
      · rcases Nat.eq_zero_or_pos n with rfl | hn
        · simpa using h
        · have hlast := hlast hn
          rwa [show k + (n + 1) - 1 = k + 1 + n - 1 by omega]
      · rw [List.map_cons, List.flatten_cons, hbytes, hnext, ← List.drop_drop, List.take_append_drop]
    · rw [blocksFrom_done (by omega)]
      refine ⟨0, rfl, fun h => absurd h (by omega), ?_⟩
      rw [List.drop_eq_nil_of_le (by omega)]
      rfl

/-- What a service that keeps the newest block of each id holds for an id. -/
def latest (puts : List (Text × Bytes)) (id : Text) : Option Bytes := (puts.reverse.find? fun b => b.1 = id).map Prod.snd

theorem latest_eq {puts : List (Text × Bytes)} (hnodup : (puts.map Prod.fst).Nodup) {b : Text × Bytes} (hb : b ∈ puts) :
    latest puts b.1 = some b.2 := by
  unfold latest
  cases hfind : puts.reverse.find? fun b' => b'.1 = b.1 with
  | none => exact absurd (decide_eq_true rfl) (List.find?_eq_none.mp hfind b (List.mem_reverse.mpr hb))
  | some found =>
    have hmem : found ∈ puts := List.mem_reverse.mp (List.mem_of_find?_eq_some hfind)
    have hid : found.1 = b.1 := by simpa using List.find?_some hfind
    rw [List.inj_on_of_nodup_map hnodup hmem hb hid]
    rfl

theorem mapM_latest {puts : List (Text × Bytes)} (hnodup : (puts.map Prod.fst).Nodup) :
    (puts.map Prod.fst).mapM (latest puts) = some (puts.map Prod.snd) := by
  have hall : ∀ blocks : List (Text × Bytes), (∀ b ∈ blocks, b ∈ puts) →
      (blocks.map Prod.fst).mapM (latest puts) = some (blocks.map Prod.snd) := by
    intro blocks hblocks
    induction blocks with
    | nil => rfl
    | cons b blocks ih =>
      rw [List.map_cons, List.mapM_cons, latest_eq hnodup (hblocks b List.mem_cons_self),
        ih fun b hb => hblocks b (List.mem_cons_of_mem _ hb)]
      rfl
  exact hall puts fun b hb => hb

end Upload

/-- The content of a package is laid out as its information says, and it is uploaded as it is. -/
theorem content_protected (c : Crypto) (d : Draws) (file : Bytes) (sasUri : Text) (bytes : Bytes)
    (hsize : bytes.length < 2 ^ 31) :
    ((protectIntuneContent c d file).bytes =
        c.hmac d.macKey (authenticated c d file) ++ authenticated c d file ∧
      (protectIntuneContent c d file).info = ⟨toBase64String d.encryptionKey, toBase64String d.initializationVector,
        toBase64String (c.hmac d.macKey (authenticated c d file)), toBase64String d.macKey, text "ProfileVersion1",
        toBase64String (c.sha256 file), text "SHA256"⟩ ∧
      readContent c (protectIntuneContent c d file) = some file) ∧
    ∃ blocks : List (Text × Bytes),
      sendBlockBlob sasUri bytes =
        blocks.map (fun b => .block (sasUri ++ text "&comp=block&blockid=" ++ b.1) b.2) ++
          [.blockList (sasUri ++ text "&comp=blocklist") (blockListXml (blocks.map Prod.fst))] ∧
      (blocks.map Prod.fst).Nodup ∧ (∀ b ∈ blocks, b.1.length = 8) ∧
      (blocks.map Prod.snd).flatten = bytes ∧
      ((blocks.map Prod.fst).mapM (latest blocks)).map List.flatten = some bytes := by
  constructor
  · obtain ⟨hbytes, hmac⟩ := protect_layout c d file
    refine ⟨hbytes, ?_, readContent_protect c d file⟩
    rw [← hmac]
    rfl
  · obtain ⟨n, hids, hlast, hbytes⟩ := blocksFrom_spec bytes 0
    rw [Nat.zero_mul] at hids hbytes
    have hnumber : ∀ k ∈ List.range' 0 n, k < 1000000 := by
      intro k hk
      have hk : k < 0 + n := (List.mem_range'_1.mp hk).2
      have hlast := hlast (by omega)
      unfold blockSize at hlast
      omega
    have hid : ∀ b ∈ blocksFrom bytes 0, ∃ k < 1000000, b.1 = blockId k := by
      intro b hb
      have hmem : b.1 ∈ (List.range' 0 n).map blockId := hids ▸ List.mem_map_of_mem hb
      obtain ⟨k, hk, hbk⟩ := List.mem_map.mp hmem
      exact ⟨k, hnumber k hk, hbk.symm⟩
    have hnodup : ((blocksFrom bytes 0).map Prod.fst).Nodup := by
      rw [hids]
      exact List.Nodup.map (fun _ _ => blockId_injective) List.nodup_range'
    have hwhole : ((blocksFrom bytes 0).map Prod.snd).flatten = bytes := by
      rw [hbytes, List.drop_zero]
    refine ⟨blocksFrom bytes 0, ?_, hnodup, ?_, hwhole, ?_⟩
    · unfold sendBlockBlob
      dsimp only
      congr 1
      apply List.map_congr_left
      intro b hb
      obtain ⟨k, hk, hbk⟩ := hid b hb
      rw [hbk, escapeDataString_blockId hk]
    · intro b hb
      obtain ⟨k, hk, hbk⟩ := hid b hb
      rw [hbk, blockId_length hk]
    · rw [mapM_latest hnodup, Option.map_some, hwhole]

section Sample

def sampleDraws : Draws := ⟨List.replicate 32 1, List.replicate 32 2, List.replicate 16 3⟩

/-- The file `santa`. -/
def sampleFile : Bytes := [115, 97, 110, 116, 97]

/-- Its encryption. -/
def sampleCipher : Bytes := [0x82, 0xb2, 0x94, 0xbc, 0xc0, 0x36, 0x69, 0x37, 0x04, 0x27, 0xdf, 0x86, 0x48, 0x99, 0x06, 0x29]

def sampleMac : Bytes := [0xd7, 0x70, 0xd7, 0x23, 0xfa, 0xe3, 0x2a, 0x53, 0x5a, 0x6d, 0x40, 0x93, 0x78, 0x10, 0x13, 0xce,
  0xbb, 0xd9, 0xaf, 0x76, 0xe9, 0x7b, 0x96, 0xce, 0x28, 0x59, 0x6d, 0xfe, 0xe5, 0x3d, 0x5a, 0x80]

def sampleHash : Bytes := [0xb6, 0xdc, 0x90, 0x83, 0xda, 0x37, 0x2f, 0xed, 0x21, 0x19, 0xac, 0xe1, 0x1a, 0xe9, 0xba, 0x87,
  0x13, 0xf7, 0xe3, 0x08, 0x27, 0xe8, 0x54, 0x37, 0x1e, 0xb5, 0xd2, 0x33, 0x5a, 0xec, 0x66, 0x4b]

/-- Cryptography that is right on the file. -/
def sampleCrypto : Crypto where
  encrypt _ _ plain := if plain = sampleFile then sampleCipher else 0 :: plain
  decrypt _ _ cipher := if cipher = sampleCipher then some sampleFile else some cipher.tail
  decrypt_encrypt := by
    intro key iv plain
    by_cases h : plain = sampleFile
    · simp [h]
    · simp [h, sampleCipher]
  writes _ _ plain := if plain = sampleFile then [sampleCipher] else [0 :: plain]
  writes_flatten := by
    intro key iv plain
    split_ifs <;> simp
  hmac _ data := if data = List.replicate 16 3 ++ sampleCipher then sampleMac else List.replicate 32 0
  hmac_length := by
    intro key data
    split_ifs <;> rfl
  sha256 data := if data = sampleFile then sampleHash else []

theorem content_protected_sample :
    (protectIntuneContent sampleCrypto sampleDraws sampleFile).bytes =
      sampleMac ++ (List.replicate 16 3 ++ sampleCipher) ∧
    readContent sampleCrypto (protectIntuneContent sampleCrypto sampleDraws sampleFile) = some sampleFile ∧
    ∃ blocks : List (Text × Bytes), (blocks.map Prod.snd).flatten = sampleMac ++ (List.replicate 16 3 ++ sampleCipher) := by
  obtain ⟨⟨hbytes, -, hread⟩, blocks, -, -, -, hblocks, -⟩ := content_protected sampleCrypto sampleDraws sampleFile []
    (sampleMac ++ (List.replicate 16 3 ++ sampleCipher)) (by decide)
  exact ⟨hbytes, hread, blocks, hblocks⟩

end Sample
end Intune

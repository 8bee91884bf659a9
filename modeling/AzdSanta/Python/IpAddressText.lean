import AzdSanta.Python.IpAddress

/-! The canonical text of an address reads back as that address, and `str` of its `/64`
network keeps nothing else of an IPv6 address than the network and, without host bits, the
scope. -/
namespace Python

section Digits

theorem hexValue_hexDigit_lt {d : ℕ} (hd : d < 16) : hexValue (hexDigit d) = some d := by
  interval_cases d <;> rfl

theorem hexText_ne_nil (n : ℕ) : hexText n ≠ [] := by
  unfold hexText
  split_ifs with hn
  · simp
  · simpa using Nat.digits_ne_nil_iff_ne_zero.mpr hn

/-- A hexadecimal digit in lower case. -/
theorem mem_hexText {n c : ℕ} (h : c ∈ hexText n) : (48 ≤ c ∧ c ≤ 57) ∨ (97 ≤ c ∧ c ≤ 102) := by
  unfold hexText at h
  split_ifs at h with hn
  · obtain rfl := List.mem_singleton.mp h
    omega
  · obtain ⟨d, hd, rfl⟩ := List.mem_map.mp h
    have hlt : d < 16 := Nat.digits_lt_base (by norm_num) (List.mem_reverse.mp hd)
    unfold hexDigit
    split_ifs <;> omega

theorem hexText_length_le {n : ℕ} (h : n < 2 ^ 16) : (hexText n).length ≤ 4 := by
  unfold hexText
  split_ifs
  · simp
  · rw [List.length_map, List.length_reverse]
    exact (Nat.digits_length_le_iff (by norm_num) n).mpr (by omega)

/-- Reading digits most significant first. -/
theorem foldlM_hexDigit (digits : List ℕ) (h : ∀ d ∈ digits, d < 16) :
    (digits.reverse.map hexDigit).foldlM (fun value c => (hexValue c).map (16 * value + ·)) 0 =
      some (Nat.ofDigits 16 digits) := by
  induction digits with
  | nil => rfl
  | cons d ds ih =>
    obtain ⟨hd, hds⟩ := List.forall_mem_cons.mp h
    rw [List.reverse_cons, List.map_append, List.foldlM_append, ih hds]
    simp [hexValue_hexDigit_lt hd, Nat.ofDigits_cons, Nat.add_comm]

theorem readHex_hexText (n : ℕ) : readHex (hexText n) = some n := by
  rw [readHex, if_neg (hexText_ne_nil n)]
  unfold hexText
  split_ifs with hn
  · rw [hn]
    rfl
  · rw [foldlM_hexDigit _ fun d hd => Nat.digits_lt_base (by norm_num) hd, Nat.ofDigits_digits]

theorem parseHextet_hexText {n : ℕ} (h : n < 2 ^ 16) : parseHextet (hexText n) = some n := by
  rw [parseHextet, if_neg (Nat.not_lt.mpr (hexText_length_le h)), readHex_hexText]

theorem mapM_parseHextet {groups : List ℕ} (h : ∀ g ∈ groups, g < 2 ^ 16) :
    (groups.map hexText).mapM parseHextet = some groups := by
  induction groups with
  | nil => rfl
  | cons g gs ih =>
    obtain ⟨hg, hgs⟩ := List.forall_mem_cons.mp h
    simp [List.mapM_cons, parseHextet_hexText hg, ih hgs]

theorem hexText_zero_iff {n : ℕ} : hexText n = [48] ↔ n = 0 := by
  constructor
  · intro h
    have hread := readHex_hexText n
    rw [h] at hread
    exact (Option.some.inj hread).symm
  · rintro rfl
    rfl

theorem parseOctet_decimal {n : ℕ} (h : n < 2 ^ 8) : parseOctet (decimal n) = some n := by
  have hdigits : (decimal n).all isDigit = true :=
    List.all_eq_true.mpr fun c hc => isDigit_of_mem_decimal hc
  have hlength : (decimal n).length ≤ 3 := decimal_length_le (k := 2) (by omega)
  have hhead : ¬ (decimal n ≠ [48] ∧ (decimal n).head? = some 48) := by
    rintro ⟨hne, hhead⟩
    obtain ⟨rest, hrest⟩ : ∃ rest, decimal n = 48 :: rest := by
      cases hd : decimal n with
      | nil => simp [hd] at hhead
      | cons c rest =>
        rw [hd] at hhead
        exact ⟨rest, by rw [Option.some.inj hhead]⟩
    exact hne (by rw [hrest, decimal_head hrest])
  rw [parseOctet, readDecimal_decimal, if_neg]
  simp only [decimal_ne_nil, hdigits, hhead, Bool.not_true, Bool.false_eq_true, false_or, not_or]
  omega

theorem mapM_parseOctet {groups : List ℕ} (h : ∀ g ∈ groups, g < 2 ^ 8) :
    (groups.map decimal).mapM parseOctet = some groups := by
  induction groups with
  | nil => rfl
  | cons g gs ih =>
    obtain ⟨hg, hgs⟩ := List.forall_mem_cons.mp h
    simp [List.mapM_cons, parseOctet_decimal hg, ih hgs]

end Digits

theorem Groups.ofList?_groups {n w : ℕ} (ip : Groups n w) : Groups.ofList? n w ip.groups = some ip :=
  dif_pos ⟨ip.length_eq, ip.lt⟩

section Compression

/-- The run at hand ends here and holds zeros only; the best run lies before. -/
structure ZeroRuns.Sound (hextets : List Text) (r : ZeroRuns) : Prop where
  here : r.len ≠ 0 → r.start + r.len = hextets.length
  run : ∀ i, r.start ≤ i → i < r.start + r.len → hextets[i]? = some [48]
  inside : r.bestStart + r.bestLen ≤ hextets.length
  best : ∀ i, r.bestStart ≤ i → i < r.bestStart + r.bestLen → hextets[i]? = some [48]

theorem ZeroRuns.Sound.step {hextets : List Text} {r : ZeroRuns} (h : r.Sound hextets)
    (hextet : Text) : (r.step hextet hextets.length).Sound (hextets ++ [hextet]) := by
  have hold {i : ℕ} (hi : hextets[i]? = some [48]) : (hextets ++ [hextet])[i]? = some [48] := by
    obtain ⟨hlt, -⟩ := List.getElem?_eq_some_iff.mp hi
    rw [List.getElem?_append_left hlt, hi]
  have hlength : (hextets ++ [hextet]).length = hextets.length + 1 := by simp
  have hinside := h.inside
  unfold ZeroRuns.step
  by_cases hzero : hextet = [48]
  · rw [if_pos hzero]
    -- The run at hand takes the new zero in, from wherever it starts.
    have hrun : ∃ start, (if r.len = 0 then hextets.length else r.start) = start ∧
        start + (r.len + 1) = hextets.length + 1 ∧
        ∀ i, start ≤ i → i < start + (r.len + 1) → (hextets ++ [hextet])[i]? = some [48] := by
      refine ⟨_, rfl, ?_, fun i hlo hhi => ?_⟩
      · split_ifs with hempty
        · omega
        · have := h.here hempty
          omega
      · rcases Nat.lt_or_ge i hextets.length with hi | hi
        · split_ifs at hlo hhi with hempty
          · omega
          · have := h.here hempty
            exact hold (h.run i hlo (by omega))
        · have hend : i = hextets.length := by
            split_ifs at hlo hhi with hempty
            · omega
            · have := h.here hempty
              omega
          subst hend
          simp [hzero]
    obtain ⟨start, hstart, hhere, hzeros⟩ := hrun
    dsimp only
    rw [hstart]
    split_ifs with hbest
    · exact ⟨fun _ => by rw [hlength, hhere], hzeros, by rw [hlength, hhere], hzeros⟩
    · refine ⟨fun _ => by rw [hlength, hhere], hzeros, by rw [hlength]; dsimp only; omega, ?_⟩
      exact fun i hlo hhi => hold (h.best i hlo hhi)
  · rw [if_neg hzero]
    refine ⟨fun hne => absurd rfl hne, fun i hlo hhi => ?_, by rw [hlength]; dsimp only; omega, ?_⟩
    · dsimp only at hlo hhi
      omega
    · exact fun i hlo hhi => hold (h.best i hlo hhi)

theorem zeroRuns_sound (hextets : List Text) : (zeroRuns hextets).Sound hextets := by
  induction hextets using List.reverseRecOn with
  | nil => exact ⟨fun h => absurd rfl h, by simp [zeroRuns], le_rfl, by simp [zeroRuns]⟩
  | append_singleton hextets hextet ih =>
    have hstep : zeroRuns (hextets ++ [hextet]) = (zeroRuns hextets).step hextet hextets.length := by
      simp [zeroRuns, List.zipIdx_append]
    rw [hstep]
    exact ih.step hextet

theorem ZeroRuns.Sound.split {hextets : List Text} {r : ZeroRuns} (h : r.Sound hextets) :
    hextets = hextets.take r.bestStart ++ List.replicate r.bestLen [48] ++
      hextets.drop (r.bestStart + r.bestLen) := by
  have hinside := h.inside
  have hmiddle : (hextets.drop r.bestStart).take r.bestLen = List.replicate r.bestLen [48] := by
    apply List.ext_getElem?
    intro i
    rcases Nat.lt_or_ge i r.bestLen with hi | hi
    · rw [List.getElem?_take_of_lt hi, List.getElem?_drop, List.getElem?_replicate_of_lt hi]
      exact h.best _ (by omega) (by omega)
    · rw [List.getElem?_eq_none (by simp; omega), List.getElem?_eq_none (by simpa using hi)]
  rw [← hmiddle, ← List.drop_drop, List.append_assoc, List.take_append_drop, List.take_append_drop]

/-- What stands around a `::` that skips the zeros in between. -/
theorem compressHextets_cases (hextets : List Text) :
    compressHextets hextets = hextets ∨ ∃ high low, ∃ k > 1,
      hextets = high ++ List.replicate k [48] ++ low ∧
      compressHextets hextets =
        (if high = [] then [[]] else high) ++ [] :: (if low = [] then [[]] else low) := by
  have hsound := zeroRuns_sound hextets
  unfold compressHextets
  dsimp only
  generalize zeroRuns hextets = best at hsound
  by_cases hlen : best.bestLen > 1
  · rw [if_pos hlen]
    have hinside := hsound.inside
    refine Or.inr ⟨hextets.take best.bestStart, hextets.drop (best.bestStart + best.bestLen),
      best.bestLen, hlen, hsound.split, ?_⟩
    have hhigh : hextets.take best.bestStart = [] ↔ best.bestStart = 0 := by
      rw [List.take_eq_nil_iff]
      refine or_iff_left ?_
      rintro rfl
      simp at hinside
      omega
    have hlow : hextets.drop (best.bestStart + best.bestLen) = [] ↔
        best.bestStart + best.bestLen = hextets.length := by
      rw [List.drop_eq_nil_iff]
      omega
    have htake : (hextets ++ [[]]).take best.bestStart = hextets.take best.bestStart :=
      List.take_append_of_le_length (by omega)
    simp only [hhigh, hlow]
    split_ifs with hstart hstop hstop
    · rw [htake, hhigh.mpr hstart, hstop, List.drop_left]
      rfl
    · rw [hhigh.mpr hstart]
      rfl
    · rw [htake, hstop, List.drop_left]
    · rfl
  · rw [if_neg hlen]
    exact Or.inl rfl

/-- The parts around the only empty part between the endpoints. -/
theorem splitSkip_one {a z : Text} {before after : List Text} (hbefore : [] ∉ before)
    (hafter : [] ∉ after) (ha : a = [] → before = []) (hz : z = [] → after = [])
    (hlen : before.length + after.length ≤ 5) :
    splitSkip (a :: before ++ [] :: (after ++ [z])) =
      some (if a = [] then [] else a :: before, if z = [] then [] else after ++ [z]) := by
  have hinterior : ((a :: before ++ [] :: (after ++ [z])).drop 1).dropLast = before ++ [] :: after := by
    rw [List.cons_append, List.drop_one, List.tail_cons, ← List.cons_append, ← List.append_assoc,
      List.dropLast_concat]
  have hcount : (before ++ [] :: after).count [] = 1 := by
    rw [List.count_append, List.count_cons_self, List.count_eq_zero.mpr hbefore,
      List.count_eq_zero.mpr hafter]
  have hindex : (before ++ [] :: after).idxOf [] = before.length := by
    rw [List.idxOf_append_of_notMem hbefore, List.idxOf_cons_self]
    rfl
  have hlast : (a :: before ++ [] :: (after ++ [z])).getLastD [] = z := by
    rw [← List.cons_append, ← List.append_assoc, List.getLastD_concat]
  have hdrop : (a :: before ++ [] :: (after ++ [z])).drop (1 + before.length + 1) = after ++ [z] := by
    rw [← List.singleton_append (l := after ++ [z]), ← List.append_assoc]
    exact List.drop_left' (by simp; omega)
  have htake : (a :: before ++ [] :: (after ++ [z])).take (1 + before.length) = a :: before :=
    List.take_left' (by simp; omega)
  have hhead : (a :: before ++ [] :: (after ++ [z])).headD [] = a := rfl
  have hpass : ¬ ((a = [] ∧ 1 + before.length ≠ 1) ∨ (z = [] ∧ (after ++ [z]).length ≠ 1)) := by
    rintro (⟨hempty, hne⟩ | ⟨hempty, hne⟩)
    · rw [ha hempty] at hne
      exact hne rfl
    · rw [hz hempty] at hne
      exact hne rfl
  have hroom : ¬ ((if a = [] then [] else a :: before).length +
      (if z = [] then [] else after ++ [z]).length > 7) := by
    split_ifs <;> simp only [List.length_nil, List.length_cons, List.length_append] <;> omega
  simp only [splitSkip, hinterior, hcount, hindex, hlast, hdrop, htake, hhead]
  rw [if_neg hpass, if_neg hroom]

/-- Around one `::` nothing is empty but an endpoint that stands next to it. -/
theorem splitSkip_skipped {high low : List Text} (hhigh : [] ∉ high) (hlow : [] ∉ low)
    (hlen : high.length + low.length ≤ 6) :
    splitSkip ((if high = [] then [[]] else high) ++ [] :: (if low = [] then [[]] else low)) =
      some (high, low) := by
  rcases high with _ | ⟨a, before⟩ <;> rcases low.eq_nil_or_concat with rfl | ⟨after, z, rfl⟩
  · rfl
  · obtain ⟨hafter, hz⟩ : [] ∉ after ∧ z ≠ [] := by simpa [eq_comm] using hlow
    have hone := @splitSkip_one [] z [] _ (List.not_mem_nil) hafter
      (fun _ => rfl) (fun h => absurd h hz) (by simp at hlen ⊢; omega)
    simpa [hz] using hone
  · obtain ⟨ha, hbefore⟩ : a ≠ [] ∧ [] ∉ before := by simpa [eq_comm] using hhigh
    have hone := @splitSkip_one a [] _ [] hbefore (List.not_mem_nil)
      (fun h => absurd h ha) (fun _ => rfl) (by simp at hlen ⊢; omega)
    simpa [ha] using hone
  · obtain ⟨hafter, hz⟩ : [] ∉ after ∧ z ≠ [] := by simpa [eq_comm] using hlow
    obtain ⟨ha, hbefore⟩ : a ≠ [] ∧ [] ∉ before := by simpa [eq_comm] using hhigh
    have hone := splitSkip_one hbefore hafter (fun h => absurd h ha) (fun h => absurd h hz)
      (by simp at hlen; omega)
    simpa [ha, hz] using hone

theorem splitSkip_whole {parts : List Text} (hparts : [] ∉ parts) (hlen : parts.length = 8) :
    splitSkip parts = some (parts, []) := by
  have hinterior : ((parts.drop 1).dropLast).count [] = 0 := by
    refine List.count_eq_zero.mpr fun h => hparts ?_
    exact List.mem_of_mem_drop (List.mem_of_mem_dropLast h)
  have hne : parts ≠ [] := by
    rintro rfl
    simp at hlen
  have hhead : parts.headD [] ≠ [] := by
    intro h
    cases parts with
    | nil => exact hne rfl
    | cons a rest =>
      rw [List.headD_cons] at h
      exact hparts (by simp [h])
  have hlast : parts.getLastD [] ≠ [] := by
    intro h
    rw [List.getLastD_eq_getLast?, List.getLast?_eq_some_getLast hne, Option.getD_some] at h
    exact hparts (h ▸ List.getLast_mem hne)
  simp only [splitSkip, hinterior]
  rw [if_neg]
  rintro (h | h | h)
  · exact h hlen
  · exact hhead h
  · exact hlast h

theorem eq_replicate_of_hexText {groups : List ℕ} {k : ℕ}
    (h : groups.map hexText = List.replicate k [48]) : groups = List.replicate k 0 := by
  obtain ⟨hlen, hall⟩ := List.eq_replicate_iff.mp h
  refine List.eq_replicate_iff.mpr ⟨by simpa using hlen, fun g hg => ?_⟩
  exact hexText_zero_iff.mp (hall _ (List.mem_map_of_mem hg))

/-- The parts of a compressed address lead back to its groups. -/
theorem splitSkip_compress (ip : Groups 8 16) :
    let parts := compressHextets (ip.groups.map hexText)
    (3 ≤ parts.length ∧ parts.length ≤ 9) ∧
    (∀ part ∈ parts, ∀ c ∈ part, (48 ≤ c ∧ c ≤ 57) ∨ (97 ≤ c ∧ c ≤ 102)) ∧
    ∃ high low, splitSkip parts = some (high.map hexText, low.map hexText) ∧
      ip.groups = high ++ List.replicate (8 - (high.length + low.length)) 0 ++ low := by
  intro parts
  have hnil (groups : List ℕ) : [] ∉ groups.map hexText := by
    simp [hexText_ne_nil]
  have hdigits (groups : List ℕ) : ∀ part ∈ groups.map hexText, ∀ c ∈ part,
      (48 ≤ c ∧ c ≤ 57) ∨ (97 ≤ c ∧ c ≤ 102) := by
    intro part hpart c hc
    obtain ⟨g, -, rfl⟩ := List.mem_map.mp hpart
    exact mem_hexText hc
  rcases compressHextets_cases (ip.groups.map hexText) with hwhole | ⟨high, low, k, hk, hsplit, hparts⟩
  · have hlen : parts.length = 8 := by
      rw [show parts = ip.groups.map hexText from hwhole, List.length_map, ip.length_eq]
    refine ⟨by omega, ?_, ip.groups, [], ?_, by simp [ip.length_eq]⟩
    · rw [show parts = ip.groups.map hexText from hwhole]
      exact hdigits ip.groups
    · rw [show parts = ip.groups.map hexText from hwhole]
      exact splitSkip_whole (hnil _) (by rw [List.length_map, ip.length_eq])
  · obtain ⟨front, lows, hgroups, hfront, rfl⟩ := List.map_eq_append_iff.mp hsplit
    obtain ⟨highs, zeros, rfl, rfl, hzeros⟩ := List.map_eq_append_iff.mp hfront
    obtain rfl := eq_replicate_of_hexText hzeros
    have hlen : highs.length + k + lows.length = 8 := by
      rw [← ip.length_eq, hgroups]
      simp only [List.length_append, List.length_replicate]
    -- An endpoint without groups is one empty part.
    have hend (groups : List ℕ) (hle : groups.length ≤ 6) :
        1 ≤ (if groups.map hexText = [] then [[]] else groups.map hexText).length ∧
        (if groups.map hexText = [] then [[]] else groups.map hexText).length ≤ groups.length + 1 ∧
        ∀ part ∈ (if groups.map hexText = [] then [[]] else groups.map hexText), ∀ c ∈ part,
          (48 ≤ c ∧ c ≤ 57) ∨ (97 ≤ c ∧ c ≤ 102) := by
      split_ifs with hempty
      · simp
      · refine ⟨List.length_pos_of_ne_nil hempty, by simp, hdigits groups⟩
    obtain ⟨hhigh, hhigh', hhighs⟩ := hend highs (by omega)
    obtain ⟨hlow, hlow', hlows⟩ := hend lows (by omega)
    have hmiddle : 8 - (highs.length + lows.length) = k := by omega
    refine ⟨?_, ?_, highs, lows, ?_, by rw [hmiddle, hgroups]⟩
    · rw [show parts = _ from hparts, List.length_append, List.length_cons]
      omega
    · rw [show parts = _ from hparts]
      intro part hpart
      rcases List.mem_append.mp hpart with hpart | hpart
      · exact hhighs part hpart
      · rcases List.mem_cons.mp hpart with rfl | hpart
        · simp
        · exact hlows part hpart
    · rw [show parts = _ from hparts]
      exact splitSkip_skipped (hnil _) (hnil _) (by simp only [List.length_map]; omega)

end Compression

section Addresses

theorem ipv6Groups_text (ip : Groups 8 16) : ipv6Groups (ipv6Text ip) = some ip := by
  obtain ⟨⟨hmin, hmax⟩, hdigits, high, low, hskip, hgroups⟩ := splitSkip_compress ip
  unfold ipv6Text ipv6Groups
  generalize compressHextets (ip.groups.map hexText) = parts at hmin hmax hdigits hskip
  have hcolon : ∀ part ∈ parts, 58 ∉ part := by
    intro part hpart hc
    have := hdigits part hpart 58 hc
    omega
  have hne : parts ≠ [] := by
    rintro rfl
    simp at hmin
  have hdot : 46 ∉ parts.getLastD [] := by
    rw [List.getLastD_eq_getLast?, List.getLast?_eq_some_getLast hne, Option.getD_some]
    intro hc
    have := hdigits _ (List.getLast_mem hne) 46 hc
    omega
  have hlt : ∀ g ∈ ip.groups, g < 2 ^ 16 := ip.lt
  rw [hgroups] at hlt
  have hhigh : ∀ g ∈ high, g < 2 ^ 16 := fun g hg => hlt g (by simp [hg])
  have hlow : ∀ g ∈ low, g < 2 ^ 16 := fun g hg => hlt g (by simp [hg])
  rw [List.splitOn_intercalate 58 hcolon hne]
  simp only [if_neg (Nat.not_lt.mpr hmin), dottedSuffix, if_neg hdot, if_neg (Nat.not_lt.mpr hmax),
    Option.bind_eq_bind, Option.bind_some, hskip, mapM_parseHextet hhigh, mapM_parseHextet hlow,
    ← hgroups]
  exact ip.ofList?_groups

/-- Hexadecimal digits and colons, with at least one colon. -/
theorem mem_ipv6Text {ip : Groups 8 16} {c : ℕ} (h : c ∈ ipv6Text ip) :
    (48 ≤ c ∧ c ≤ 58) ∨ (97 ≤ c ∧ c ≤ 102) := by
  obtain ⟨-, hdigits, -⟩ := splitSkip_compress ip
  rcases mem_intercalate h with rfl | ⟨part, hpart, hc⟩
  · omega
  · have := hdigits part hpart c hc
    omega

theorem colon_mem_ipv6Text (ip : Groups 8 16) : 58 ∈ ipv6Text ip := by
  obtain ⟨⟨hmin, -⟩, hdigits, -⟩ := splitSkip_compress ip
  by_contra hcolon
  have hparts := @List.splitOn_intercalate _ (compressHextets (ip.groups.map hexText)) _ _ 58
    (fun part hpart hc => by have := hdigits part hpart 58 hc; omega)
    (by rintro h; simp [h] at hmin)
  rw [show [58].intercalate (compressHextets (ip.groups.map hexText)) = ipv6Text ip from rfl,
    List.splitOn_eq_singleton hcolon] at hparts
  simp [← hparts] at hmin

theorem mem_ipv4Text {ip : Groups 4 8} {c : ℕ} (h : c ∈ ipv4Text ip) : 46 ≤ c ∧ c ≤ 57 ∧ c ≠ 47 := by
  rcases mem_intercalate h with rfl | ⟨part, hpart, hc⟩
  · omega
  · obtain ⟨g, -, rfl⟩ := List.mem_map.mp hpart
    have hdigit := isDigit_of_mem_decimal hc
    simp only [isDigit, Bool.and_eq_true, decide_eq_true_eq] at hdigit
    omega

theorem ipv4Address_text (ip : Groups 4 8) : ipv4Address (ipv4Text ip) = some ip := by
  have hslash : 47 ∉ ipv4Text ip := fun h => (mem_ipv4Text h).2.2 rfl
  have hlen := ip.length_eq
  have hdot : ∀ part ∈ ip.groups.map decimal, 46 ∉ part := by
    intro part hpart hc
    obtain ⟨g, -, rfl⟩ := List.mem_map.mp hpart
    exact absurd (isDigit_of_mem_decimal hc) (by decide)
  have hne : ip.groups.map decimal ≠ [] := by
    intro h
    simp [List.map_eq_nil_iff.mp h] at hlen
  unfold ipv4Address
  rw [if_neg hslash, ipv4Text, List.splitOn_intercalate 46 hdot hne]
  simp only [List.length_map, hlen, ne_eq, not_true_eq_false, if_false, mapM_parseOctet ip.lt,
    Option.bind_eq_bind, Option.bind_some]
  exact ip.ofList?_groups

theorem exists_of_mapM {f : Text → Option ℕ} {parts : List Text} {values : List ℕ}
    (h : parts.mapM f = some values) : ∀ part ∈ parts, ∃ n, f part = some n := by
  induction parts generalizing values with
  | nil => simp
  | cons part parts ih =>
    rw [List.mapM_cons] at h
    obtain ⟨n, hn, h⟩ := Option.bind_eq_some_iff.mp h
    obtain ⟨rest, hrest, -⟩ := Option.bind_eq_some_iff.mp h
    exact List.forall_mem_cons.mpr ⟨⟨n, hn⟩, ih hrest⟩

/-- What reads as an IPv4 address holds digits and dots. -/
theorem mem_of_ipv4Address {s : Text} {ip : Groups 4 8} (h : ipv4Address s = some ip) {c : ℕ}
    (hc : c ∈ s) : c = 46 ∨ isDigit c = true := by
  unfold ipv4Address at h
  split_ifs at h with hslash
  dsimp only at h
  split_ifs at h
  obtain ⟨values, hvalues, -⟩ := Option.bind_eq_some_iff.mp h
  rw [← @List.intercalate_splitOn _ s _ _ 46] at hc
  rcases mem_intercalate hc with hc | ⟨octet, hoctet, hc⟩
  · exact Or.inl hc
  · right
    obtain ⟨n, hn⟩ := exists_of_mapM hvalues octet hoctet
    unfold parseOctet at hn
    split_ifs at hn with hbad
    simp only [not_or] at hbad
    have hdigits : octet.all isDigit = true := by simpa using hbad.2.1
    exact List.all_eq_true.mp hdigits c hc

theorem ipv4Address_of_colon {s : Text} (h : 58 ∈ s) : ipv4Address s = none := by
  rcases hs : ipv4Address s with _ | ip
  · rfl
  · rcases mem_of_ipv4Address hs h with hc | hc <;> simp [isDigit] at hc

/-- A scope that `ip_address` accepts. -/
def ScopeValid (scope : Option Text) : Prop := ∀ s, scope = some s → s ≠ [] ∧ 37 ∉ s ∧ 47 ∉ s

/-- The addresses that `ip_address` returns. -/
def Address.Valid : Address → Prop
  | .v4 _ => True
  | .v6 _ scope => ScopeValid scope

theorem ipAddress_valid {s : Text} {a : Address} (h : ipAddress s = some a) : a.Valid := by
  unfold ipAddress at h
  split at h
  · obtain rfl := Option.some.inj h
    trivial
  · obtain ⟨⟨ip, scope⟩, hip, rfl⟩ := Option.map_eq_some_iff.mp h
    unfold ipv6Address at hip
    split_ifs at hip with hslash
    obtain ⟨⟨t, scope'⟩, hsplit, hip⟩ := Option.bind_eq_some_iff.mp hip
    obtain ⟨ip', -, hpair⟩ := Option.bind_eq_some_iff.mp hip
    obtain rfl := (Prod.mk.inj (Option.some.inj hpair)).2
    intro text htext
    unfold splitScope at hsplit
    split_ifs at hsplit with hpercent
    · dsimp only at hsplit
      split_ifs at hsplit with hbad
      obtain rfl := Option.some.inj ((Prod.mk.inj (Option.some.inj hsplit)).2.trans htext)
      push Not at hbad
      refine ⟨hbad.1, hbad.2, fun hc => hslash ?_⟩
      exact (List.dropWhile_suffix _).mem (List.mem_of_mem_drop hc)
    · rw [← (Prod.mk.inj (Option.some.inj hsplit)).2] at htext
      cases htext

theorem ipv6Address_text (ip : Groups 8 16) {scope : Option Text} (hscope : ScopeValid scope) :
    ipv6Address (Address.v6 ip scope).text = some (ip, scope) := by
  have hplain : 37 ∉ ipv6Text ip := fun h => by have := mem_ipv6Text h; omega
  have hslash : 47 ∉ ipv6Text ip := fun h => by have := mem_ipv6Text h; omega
  unfold ipv6Address
  cases scope with
  | none =>
    simp [Address.text, hslash, splitScope, hplain, ipv6Groups_text]
  | some scope =>
    obtain ⟨hne, hpercent, hslash'⟩ := hscope scope rfl
    have hbefore : ∀ c ∈ ipv6Text ip, decide (c ≠ 37) = true := fun c hc =>
      decide_eq_true fun h => hplain (h ▸ hc)
    have htake : (ipv6Text ip ++ 37 :: scope).takeWhile (· ≠ 37) = ipv6Text ip := by
      rw [List.takeWhile_append_of_pos hbefore]
      simp
    have hdrop : (ipv6Text ip ++ 37 :: scope).dropWhile (· ≠ 37) = 37 :: scope := by
      rw [List.dropWhile_append_of_pos hbefore]
      simp
    have hsplit : splitScope (ipv6Text ip ++ 37 :: scope) = some (ipv6Text ip, some scope) := by
      rw [splitScope, if_pos (by simp)]
      dsimp only
      rw [htake, hdrop]
      simp [hne, hpercent]
    simp [Address.text, hslash, hslash', hsplit, ipv6Groups_text]

theorem colon_mem_text (ip : Groups 8 16) (scope : Option Text) :
    58 ∈ (Address.v6 ip scope).text := by
  cases scope <;> simp [Address.text, colon_mem_ipv6Text]

theorem slash_notMem_text (ip : Groups 8 16) {scope : Option Text} (hscope : ScopeValid scope) :
    47 ∉ (Address.v6 ip scope).text := by
  have hslash : 47 ∉ ipv6Text ip := fun h => by have := mem_ipv6Text h; omega
  cases scope with
  | none => simpa [Address.text] using hslash
  | some scope => simpa [Address.text, hslash] using (hscope scope rfl).2.2

/-- `ip_address(str(address))` is the address. -/
theorem ipAddress_text {a : Address} (ha : a.Valid) : ipAddress a.text = some a := by
  cases a with
  | v4 ip => simp [ipAddress, Address.text, ipv4Address_text]
  | v6 ip scope =>
    simp [ipAddress, ipv4Address_of_colon (colon_mem_text ip scope), ipv6Address_text ip ha]

/-- `ip_network(str(address) + '/64', strict=False)` of an IPv6 address. -/
theorem ipNetwork_text {ip : Groups 8 16} {scope : Option Text} (hscope : ScopeValid scope) :
    ipNetwork false ((Address.v6 ip scope).text ++ text "/64") =
      some (.v6 (ip.mask 64) (if ip.mask 64 = ip then scope else none) 64) := by
  have hparts : ((Address.v6 ip scope).text ++ text "/64").splitOn 47 =
      [(Address.v6 ip scope).text, text "64"] :=
    List.splitOn_append_cons_self_of_not_mem (slash_notMem_text ip hscope) (text "64")
  have hbits : prefixBits 128 (text "64") = some 64 := by decide +kernel
  have hv4 : ipv4Network false ((Address.v6 ip scope).text ++ text "/64") = none := by
    simp [ipv4Network, hparts, ipv4Address_of_colon (colon_mem_text ip scope)]
  simp only [ipNetwork, hv4, ipv6Network, hparts, hbits, ipv6Address_text ip hscope,
    Option.bind_eq_bind, Option.bind_some]
  by_cases hmask : ip.mask 64 = ip
  · simp [hmask]
  · simp [hmask]

end Addresses
end Python

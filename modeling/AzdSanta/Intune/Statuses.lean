import AzdSanta.PowerShell.Comparison

/-! `Get-SantaDeviceStatuses`: the pages of device statuses of a profile, which the server links. -/
namespace Intune
open Python PowerShell

/-- `System.Uri` of an absolute URI. -/
structure Uri where
  scheme : Text
  host : Text
  port : ℤ
  userInfo : Text
  absolutePath : Text
  fragment : Text
  absoluteUri : Text
  deriving DecidableEq

/-- An element of the array of a page. -/
inductive Row (ρ : Type) where
  | null
  /-- A string, a number or a truth value. -/
  | primitive
  | object (row : ρ)

structure Page (ρ : Type) where
  /-- The property `value`, when it is there and an array. -/
  value : Option (List (Row ρ))
  /-- The property `@odata.nextLink` as a string, when it is there. -/
  nextLink : Option Text

inductive Response (ρ : Type) where
  /-- An exception of `Invoke-MgGraphRequest`. -/
  | failed
  | null
  | page (page : Page ρ)

/-- `Char.IsWhiteSpace`. -/
def isWhiteSpace (c : ℕ) : Bool :=
  (9 ≤ c && c ≤ 13) || c = 32 || c = 0x85 || c = 0xA0 || c = 0x1680 || (0x2000 ≤ c && c ≤ 0x200A) ||
    c = 0x2028 || c = 0x2029 || c = 0x202F || c = 0x205F || c = 0x3000

/-- `IsNullOrWhiteSpace`, on the link of a page. -/
def isLast (nextLink : Option Text) : Bool := (castString nextLink).all isWhiteSpace

inductive StatusError where
  /-- `The selected Graph environment did not provide an HTTPS origin.` -/
  | notOrigin
  /-- `Device status pagination cycled for profile …` -/
  | cycled
  /-- An exception of the request. -/
  | request
  /-- `Device status page for profile … did not contain an array.` -/
  | notArray
  /-- `Device status page for profile … contained an invalid row.` -/
  | invalidRow
  /-- `Device status continuation URL for profile … is outside the expected Graph collection.` -/
  | outside
  /-- `Device status pagination exceeded 1000 pages for profile …` -/
  | exceeded
  deriving DecidableEq

/-- What the function uses of PowerShell, .NET and Graph. -/
structure Graph (ρ : Type) where
  comparison : Comparison
  /-- `[uri]::TryCreate` of an absolute URI. -/
  tryCreate : Text → Option Uri
  /-- `Invoke-GraphRead`. -/
  read : Text → Response ρ

/-- The loop over the rows of a page. -/
def pageRows {ρ : Type} : List (Row ρ) → Except StatusError (List ρ)
  | [] => pure []
  | .object row :: rows => do
    let rest ← pageRows rows
    return row :: rest
  | _ :: _ => throw .invalidRow

/-- `$expectedPath`. -/
def expectedPath (objectId : Text) : Text :=
  text "/v1.0/deviceManagement/deviceConfigurations/" ++ objectId ++ text "/deviceStatuses"

/-- The relative URI of the first page. -/
def firstUri (objectId : Text) : Text := expectedPath objectId ++ text "?$top=100"

/-- The checks on a continuation URL. -/
def isInside (c : Comparison) (base : Uri) (path : Text) (next : Uri) : Bool :=
  c.ceq next.scheme (text "https") && c.ceq next.host base.host && next.port = base.port && next.userInfo = [] &&
    next.fragment = [] && c.eq next.absolutePath path

variable {ρ : Type}

/-- The loop over the pages, with the URIs it has requested and the rows it returns. -/
def collectPages (g : Graph ρ) (base : Uri) (path : Text) :
    ℕ → List Text → List ρ → Text → List Text × Except StatusError (List ρ)
  | 0, _, _, _ => ([], .error .exceeded)
  | pages + 1, seen, rows, uri =>
    if uri ∈ seen then ([], .error .cycled)
    else match g.read uri with
      | .failed => ([uri], .error .request)
      | .null => ([uri], .error .notArray)
      | .page page =>
        match page.value with
        | none => ([uri], .error .notArray)
        | some value =>
          match pageRows value with
          | .error e => ([uri], .error e)
          | .ok new =>
            if isLast page.nextLink then ([uri], .ok (rows ++ new))
            else match g.tryCreate (castString page.nextLink) with
              | none => ([uri], .error .outside)
              | some next =>
                if isInside g.comparison base path next then
                  let (requested, result) := collectPages g base path pages (uri :: seen) (rows ++ new) next.absoluteUri
                  (uri :: requested, result)
                else ([uri], .error .outside)

/-- `Get-SantaDeviceStatuses`. -/
def getSantaDeviceStatuses (g : Graph ρ) (objectId : Text) (base : Uri) :
    List Text × Except StatusError (List ρ) :=
  if g.comparison.ceq base.scheme (text "https") && base.userInfo = [] && g.comparison.ceq base.absolutePath (text "/") &&
      base.fragment = [] then
    collectPages g base (expectedPath objectId) 1000 [] [] (firstUri objectId)
  else ([], .error .notOrigin)

section Chains

/-- A page that holds rows: these rows and its link, if it has one. -/
def pageAt (g : Graph ρ) (uri : Text) : Option (List ρ × Option Text) :=
  match g.read uri with
  | .page ⟨some value, nextLink⟩ =>
    match pageRows value with
    | .ok rows => some (rows, if isLast nextLink then none else some (castString nextLink))
    | .error _ => none
  | _ => none

/-- The pages from a URI to the page without a link: their URIs and their rows. -/
inductive Chain (g : Graph ρ) : Text → List Text → List (List ρ) → Prop
  | last {uri : Text} {rows : List ρ} (h : pageAt g uri = some (rows, none)) : Chain g uri [uri] [rows]
  | next {uri link : Text} {rows : List ρ} {next : Uri} {uris : List Text} {pages : List (List ρ)}
      (h : pageAt g uri = some (rows, some link)) (hnext : g.tryCreate link = some next)
      (hrest : Chain g next.absoluteUri uris pages) : Chain g uri (uri :: uris) (rows :: pages)

/-- All that one turn of the loop can do. -/
theorem collectPages_cases (g : Graph ρ) (base : Uri) (path : Text) (pages : ℕ) (seen : List Text) (rows : List ρ)
    (uri : Text) :
    (∃ e, collectPages g base path (pages + 1) seen rows uri = ([], .error e)) ∨
    (∃ e, collectPages g base path (pages + 1) seen rows uri = ([uri], .error e)) ∨
    (uri ∉ seen ∧ ∃ new, pageAt g uri = some (new, none) ∧
      collectPages g base path (pages + 1) seen rows uri = ([uri], .ok (rows ++ new))) ∨
    (uri ∉ seen ∧ ∃ new link next, pageAt g uri = some (new, some link) ∧ g.tryCreate link = some next ∧
      isInside g.comparison base path next = true ∧
      collectPages g base path (pages + 1) seen rows uri =
        (uri :: (collectPages g base path pages (uri :: seen) (rows ++ new) next.absoluteUri).1,
          (collectPages g base path pages (uri :: seen) (rows ++ new) next.absoluteUri).2)) := by
  rw [collectPages]
  by_cases hseen : uri ∈ seen
  · rw [if_pos hseen]
    exact Or.inl ⟨_, rfl⟩
  · rw [if_neg hseen]
    unfold pageAt
    cases hread : g.read uri with
    | failed => exact Or.inr (Or.inl ⟨_, rfl⟩)
    | null => exact Or.inr (Or.inl ⟨_, rfl⟩)
    | page page =>
      obtain ⟨value, nextLink⟩ := page
      cases value with
      | none => exact Or.inr (Or.inl ⟨_, rfl⟩)
      | some value =>
        dsimp only
        cases hrows : pageRows value with
        | error e => exact Or.inr (Or.inl ⟨_, rfl⟩)
        | ok new =>
          dsimp only
          by_cases hlast : isLast nextLink = true
          · rw [if_pos hlast, if_pos hlast]
            exact Or.inr (Or.inr (Or.inl ⟨hseen, new, rfl, rfl⟩))
          · rw [if_neg hlast, if_neg hlast]
            cases hcreate : g.tryCreate (castString nextLink) with
            | none => exact Or.inr (Or.inl ⟨_, rfl⟩)
            | some next =>
              dsimp only
              by_cases hinside : isInside g.comparison base path next = true
              · rw [if_pos hinside]
                exact Or.inr (Or.inr (Or.inr ⟨hseen, new, _, next, rfl, hcreate, hinside, rfl⟩))
              · rw [if_neg hinside]
                exact Or.inr (Or.inl ⟨_, rfl⟩)

theorem collectPages_length (g : Graph ρ) (base : Uri) (path : Text) (pages : ℕ) (seen : List Text) (rows : List ρ)
    (uri : Text) : (collectPages g base path pages seen rows uri).1.length ≤ pages := by
  induction pages generalizing seen rows uri with
  | zero => simp [collectPages]
  | succ pages ih =>
    rcases collectPages_cases g base path pages seen rows uri with ⟨e, h⟩ | ⟨e, h⟩ | ⟨-, new, -, h⟩ |
      ⟨-, new, link, next, -, -, -, h⟩ <;> rw [h]
    · simp
    · simp
    · simp
    · have hrest := ih (uri :: seen) (rows ++ new) next.absoluteUri
      simpa using hrest

/-- A run that returns has read the whole chain, and no page of it before. -/
theorem collectPages_chain {g : Graph ρ} {base : Uri} {path : Text} {pages : ℕ} {seen : List Text} {rows all : List ρ}
    {uri : Text} (h : (collectPages g base path pages seen rows uri).2 = .ok all) :
    ∃ read, Chain g uri (collectPages g base path pages seen rows uri).1 read ∧ all = rows ++ read.flatten ∧
      (collectPages g base path pages seen rows uri).1.Nodup ∧
      ∀ u ∈ (collectPages g base path pages seen rows uri).1, u ∉ seen := by
  induction pages generalizing seen rows uri with
  | zero => cases h
  | succ pages ih =>
    rcases collectPages_cases g base path pages seen rows uri with ⟨e, hcase⟩ | ⟨e, hcase⟩ |
      ⟨hseen, new, hpage, hcase⟩ | ⟨hseen, new, link, next, hpage, hcreate, -, hcase⟩ <;> rw [hcase] at h ⊢
    · cases h
    · cases h
    · refine ⟨[new], .last hpage, ?_, List.nodup_singleton _, ?_⟩
      · simpa using (Except.ok.inj h).symm
      · simpa using hseen
    · obtain ⟨read, hchain, hall, hnodup, hnew⟩ := ih h
      refine ⟨new :: read, .next hpage hcreate hchain, ?_, ?_, ?_⟩
      · rw [hall, List.flatten_cons, List.append_assoc]
      · apply List.nodup_cons.mpr
        exact ⟨fun hmem => hnew uri hmem List.mem_cons_self, hnodup⟩
      · intro u hu
        rcases List.mem_cons.mp hu with rfl | hu
        · exact hseen
        · exact fun hmem => hnew u hu (List.mem_cons_of_mem _ hmem)

theorem collectPages_inside {g : Graph ρ} {base : Uri} {path : Text} {pages : ℕ} {seen : List Text} {rows : List ρ}
    {uri u : Text} (h : u ∈ (collectPages g base path pages seen rows uri).1) :
    u = uri ∨ ∃ link next, g.tryCreate link = some next ∧ isInside g.comparison base path next = true ∧
      u = next.absoluteUri := by
  induction pages generalizing seen rows uri with
  | zero => simp [collectPages] at h
  | succ pages ih =>
    rcases collectPages_cases g base path pages seen rows uri with ⟨e, hcase⟩ | ⟨e, hcase⟩ | ⟨-, new, -, hcase⟩ |
      ⟨-, new, link, next, -, hcreate, hinside, hcase⟩ <;> rw [hcase] at h
    · cases h
    · exact Or.inl (List.mem_singleton.mp h)
    · exact Or.inl (List.mem_singleton.mp h)
    · rcases List.mem_cons.mp h with rfl | h
      · exact Or.inl rfl
      · rcases ih h with rfl | hlater
        · exact Or.inr ⟨link, next, hcreate, hinside, rfl⟩
        · exact Or.inr hlater

theorem Chain.head {g : Graph ρ} {uri : Text} {uris : List Text} {pages : List (List ρ)} (h : Chain g uri uris pages) :
    ∃ rest, uris = uri :: rest := by
  cases h with
  | last h => exact ⟨[], rfl⟩
  | next h hnext hrest => exact ⟨_, rfl⟩

theorem Chain.suffix {g : Graph ρ} {uri u : Text} {uris : List Text} {pages : List (List ρ)}
    (h : Chain g uri uris pages) (hu : u ∈ uris) : ∃ before after pages', uris = before ++ after ∧ Chain g u after pages' := by
  induction h with
  | last h =>
    obtain rfl := List.mem_singleton.mp hu
    exact ⟨[], _, _, rfl, .last h⟩
  | @next uri link rows next uris pages h hnext hrest ih =>
    rcases List.mem_cons.mp hu with rfl | hu
    · exact ⟨[], _, _, rfl, .next h hnext hrest⟩
    · obtain ⟨before, after, pages', hsplit, hchain⟩ := ih hu
      exact ⟨uri :: before, after, pages', by rw [hsplit, List.cons_append], hchain⟩

theorem pageAt_congr {g : Graph ρ} {u v : Text} (h : g.read u = g.read v) : pageAt g u = pageAt g v := by
  unfold pageAt
  rw [h]

/-- A chain without repetition does not come back to its first page under another name. -/
theorem Chain.notMem_of_alike {g : Graph ρ} {uri u : Text} {uris : List Text} {pages : List (List ρ)}
    (h : Chain g uri uris pages) (hnodup : uris.Nodup) (halike : g.read u = g.read uri) (hne : u ≠ uri) : u ∉ uris := by
  intro hu
  cases h with
  | last h => exact hne (List.mem_singleton.mp hu)
  | @next _ link rows next uris pages h hnext hrest =>
    have hu : u ∈ uris := (List.mem_cons.mp hu).resolve_left hne
    obtain ⟨before, after, pages', rfl, hchain⟩ := hrest.suffix hu
    have hpage := pageAt_congr halike
    cases hchain with
    | last h' =>
      rw [h, h'] at hpage
      cases hpage
    | @next _ link' rows' next' after pages' h' hnext' hrest' =>
      rw [h, h'] at hpage
      obtain ⟨-, rfl⟩ : rows' = rows ∧ link' = link := by simpa using hpage
      obtain rfl := Option.some.inj (hnext.symm.trans hnext')
      -- the second page follows both names of the first
      obtain ⟨rest, hfirst⟩ := hrest.head
      obtain ⟨rest', rfl⟩ := hrest'.head
      have htwice := (List.nodup_cons.mp hnodup).2
      cases before with
      | nil =>
        obtain ⟨rfl, -⟩ := List.cons.inj hfirst
        simp at htwice
      | cons first before =>
        obtain ⟨rfl, -⟩ := List.cons.inj hfirst
        simp at htwice

end Chains

/-- A URI of the selected origin and the collection. -/
structure Inside (c : Comparison) (base : Uri) (path : Text) (uri : Uri) : Prop where
  scheme : c.ceq uri.scheme (text "https") = true
  host : c.ceq uri.host base.host = true
  port : uri.port = base.port
  collection : c.eq uri.absolutePath path = true
  exactScheme : uri.scheme.all isPrintable → uri.scheme = text "https"
  exactHost : uri.host.all isPrintable → base.host.all isPrintable → uri.host = base.host
  exactPath : uri.absolutePath.all isPrintable → path.all isPrintable →
    uri.absolutePath.map lowerAscii = path.map lowerAscii

theorem inside_of_isInside {c : Comparison} {base uri : Uri} {path : Text} (h : isInside c base path uri = true) :
    Inside c base path uri := by
  simp only [isInside, Bool.and_eq_true, decide_eq_true_eq] at h
  obtain ⟨⟨⟨⟨⟨hscheme, hhost⟩, hport⟩, -⟩, -⟩, hpath⟩ := h
  have hhttps : (text "https").all isPrintable = true := by decide
  exact ⟨hscheme, hhost, hport, hpath, fun hascii => c.cascii _ _ hascii hhttps hscheme,
    fun hascii hbase => c.cascii _ _ hascii hbase hhost, fun hascii hexpected => c.ascii _ _ hascii hexpected hpath⟩

/-- Device statuses are complete or refused, and only the collection of the profile is read. -/
theorem statuses_complete (g : Graph ρ) (objectId : Text) (base : Uri) (absolute : Text)
    (halike : g.read absolute = g.read (firstUri objectId)) :
    (getSantaDeviceStatuses g objectId base).1.length ≤ 1000 ∧
    (∀ rows, (getSantaDeviceStatuses g objectId base).2 = .ok rows →
      ∃ pages, Chain g (firstUri objectId) (getSantaDeviceStatuses g objectId base).1 pages ∧ rows = pages.flatten ∧
        (getSantaDeviceStatuses g objectId base).1.Nodup ∧
        (absolute ∈ (getSantaDeviceStatuses g objectId base).1 → absolute = firstUri objectId)) ∧
    ∀ uri ∈ (getSantaDeviceStatuses g objectId base).1, uri = firstUri objectId ∨
      ∃ link next, g.tryCreate link = some next ∧ Inside g.comparison base (expectedPath objectId) next ∧
        uri = next.absoluteUri := by
  unfold getSantaDeviceStatuses
  split_ifs with horigin
  · refine ⟨collectPages_length _ _ _ _ _ _ _, fun rows hrows => ?_, fun uri huri => ?_⟩
    · obtain ⟨pages, hchain, hall, hnodup, -⟩ := collectPages_chain hrows
      refine ⟨pages, hchain, by simpa using hall, hnodup, fun hmem => ?_⟩
      by_contra hne
      exact hchain.notMem_of_alike hnodup halike hne hmem
    · rcases collectPages_inside huri with hfirst | ⟨link, next, hcreate, hinside, hnext⟩
      · exact Or.inl hfirst
      · exact Or.inr ⟨link, next, hcreate, inside_of_isInside hinside, hnext⟩
  · refine ⟨by simp, fun rows hrows => ?_, by simp⟩
    cases hrows

/-- The Graph endpoint and the link of the tests. -/
def sampleBase : Uri := ⟨text "https", text "graph.microsoft.us", 443, [], text "/", [], text "https://graph.microsoft.us/"⟩

def sampleNext : Uri where
  scheme := text "https"
  host := text "graph.microsoft.us"
  port := 443
  userInfo := []
  absolutePath := expectedPath (text "33333333-3333-4333-8333-333333333331")
  fragment := []
  absoluteUri := text "https://graph.microsoft.us/v1.0/deviceManagement/deviceConfigurations/" ++
    text "33333333-3333-4333-8333-333333333331/deviceStatuses?$skiptoken=second"

/-- Two pages with a row each. -/
def sampleGraph : Graph ℕ where
  comparison := .ordinal
  tryCreate link := if link = sampleNext.absoluteUri then some sampleNext else none
  read uri :=
    if uri = sampleNext.absoluteUri then .page ⟨some [.object 2], none⟩
    else .page ⟨some [.object 1], some sampleNext.absoluteUri⟩

theorem statuses_complete_pages :
    (getSantaDeviceStatuses sampleGraph (text "33333333-3333-4333-8333-333333333331") sampleBase).2 = .ok [1, 2] ∧
    ∃ pages, Chain sampleGraph (firstUri (text "33333333-3333-4333-8333-333333333331"))
      (getSantaDeviceStatuses sampleGraph (text "33333333-3333-4333-8333-333333333331") sampleBase).1 pages ∧
      [1, 2] = pages.flatten := by
  have hrun : (getSantaDeviceStatuses sampleGraph (text "33333333-3333-4333-8333-333333333331") sampleBase).2 =
      .ok [1, 2] := by
    decide +kernel
  obtain ⟨-, hreturns, -⟩ := statuses_complete sampleGraph (text "33333333-3333-4333-8333-333333333331") sampleBase
    (firstUri (text "33333333-3333-4333-8333-333333333331")) rfl
  obtain ⟨pages, hchain, hall, -⟩ := hreturns _ hrun
  exact ⟨hrun, pages, hchain, hall⟩

end Intune

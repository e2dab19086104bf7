import Mathlib.Data.List.DropRight
import Mathlib.Data.Char

/- Paths that a Riivolution patch gives (DiscIO/RiivolutionPatcher.cpp, `MakeAbsoluteFromRelative`).
   The path is resolved element by element onto a root, editing one string in place: an element is
   appended, in the spelling of the host's directory listing if there is one, and ".." cuts the
   string back to its last slash, which a counter of the appended elements guards.

   `under root elements` is the string that the elements stand for; `resolve_under` says that the
   string is always of this form, with as many elements as the counter says, so that what is cut off
   is always an element and never a part of the root. -/
namespace DolphinXR.DiscIO.Riivolution

abbrev Path := List Char

def toLower (ch : Char) : Char := if 'A' ≤ ch ∧ ch ≤ 'Z' then Char.ofNat (ch.toNat + 32) else ch

def caseInsensitiveEquals (a b : Path) : Bool := a.map toLower == b.map toLower

/-- The host's file system at one time: which paths exist, and the names in a directory. -/
structure HostFs where
  pathExists : Path → Bool
  scanDirectoryTree : Path → List Path

structure FileDataLoaderHostFS where
  sdRoot : Path
  patchRoot : Path
  isWindows : Bool

/-- Append an element, as the host spells it. -/
def appendElement (fs : HostFs) (result element : Path) : Path :=
  let result := result ++ '/' :: element
  if fs.pathExists result then result
  else
    let result := result.take (result.length - element.length)
    match (fs.scanDirectoryTree result).find? (caseInsensitiveEquals element) with
    | some virtualName => result ++ virtualName
    | none => result ++ element

def removeElement (result : Path) : Path := (result.rdropWhile (· ≠ '/')).dropLast

/-- An element's effect on the string and the depth. -/
def visitElement (fs : HostFs) (element result : Path) (depth : Nat) : Option (Path × Nat) :=
  if element = ['.'] then some (result, depth)
  else if element = ['.', '.'] then
    if depth = 0 then none else some (removeElement result, depth - 1)
  else if element.all (· = '.') then none
  else some (appendElement fs result element, depth + 1)

/-- The loop over the path's elements; the host answers anew in every round. -/
def resolve (host : Nat → HostFs) (round : Nat) (work result : Path) (depth : Nat) : Option Path :=
  if _hwork : work = [] then some result
  else
    let element := work.takeWhile (· ≠ '/')
    match visitElement (host round) element result depth with
    | none => none
    | some (result, depth) =>
      match hrest : work.dropWhile (· ≠ '/') with
      | [] => some result
      | _ :: rest => resolve host (round + 1) (rest.dropWhile (· = '/')) result depth
termination_by work.length
decreasing_by
  have hle := (List.dropWhile_sublist (l := work) (· ≠ '/')).length_le
  have hrest' := (List.dropWhile_sublist (l := rest) (· = '/')).length_le
  rw [hrest, List.length_cons] at hle
  omega

def FileDataLoaderHostFS.root (l : FileDataLoaderHostFS) (externalRelativePath : Path) : Path :=
  if externalRelativePath.head? = some '/' then l.sdRoot else l.patchRoot

def makeAbsoluteFromRelative (l : FileDataLoaderHostFS) (host : Nat → HostFs)
    (externalRelativePath : Path) : Option Path :=
  if l.isWindows ∧ '\\' ∈ externalRelativePath then none
  else
    let work := (externalRelativePath.dropWhile (· = '/')).rdropWhile (· = '/')
    resolve host 0 work (l.root externalRelativePath) 0

/-! ### Strings of elements -/

/-- What can be appended: not empty, without a slash, and not made of dots only. -/
structure IsElement (element : Path) : Prop where
  ne_nil : element ≠ []
  no_slash : '/' ∉ element
  not_dots : ∃ ch ∈ element, ch ≠ '.'

def under (root : Path) (elements : List Path) : Path :=
  root ++ elements.flatMap fun element => '/' :: element

theorem under_append (root : Path) (elements : List Path) (element : Path) :
    under root (elements ++ [element]) = under root elements ++ '/' :: element := by
  simp [under]

theorem removeElement_append {element : Path} (h : '/' ∉ element) (result : Path) :
    removeElement (result ++ '/' :: element) = result := by
  have hall : ∀ ch ∈ element.reverse, decide (ch ≠ '/') = true := by
    intro ch hch
    have : ch ≠ '/' := fun heq => h (heq ▸ List.mem_reverse.1 hch)
    simpa using this
  rw [removeElement, List.rdropWhile, List.reverse_append, List.reverse_cons, List.append_assoc,
    List.dropWhile_append_of_pos hall]
  simp

theorem eq_of_toLower {ch c : Char} (hc : c.toNat < 97) (h : toLower ch = c) : ch = c := by
  rw [toLower] at h
  split at h
  case isTrue hletter =>
    have hle : ch.toNat ≤ 90 := hletter.2
    have hge : 65 ≤ ch.toNat := hletter.1
    have hnat : (Char.ofNat (ch.toNat + 32)).toNat = ch.toNat + 32 := by
      rw [Char.ofNat, dif_pos (.inl (by omega))]
      rfl
    rw [h] at hnat
    omega
  case isFalse => exact h

theorem IsElement.of_caseInsensitiveEquals {element name : Path} (h : IsElement element)
    (heq : caseInsensitiveEquals element name = true) : IsElement name := by
  have hmap : element.map toLower = name.map toLower := by simpa [caseInsensitiveEquals] using heq
  refine ⟨?_, ?_, ?_⟩
  · rintro rfl
    exact h.ne_nil (List.map_eq_nil_iff.1 hmap)
  · intro hslash
    have hlower : toLower '/' ∈ element.map toLower := hmap ▸ List.mem_map_of_mem hslash
    obtain ⟨ch, hch, heq⟩ := List.mem_map.1 hlower
    have hself : toLower '/' = '/' := by decide
    exact h.no_slash (eq_of_toLower (by decide) (heq.trans hself) ▸ hch)
  · obtain ⟨ch, hch, hne⟩ := h.not_dots
    have hlower : toLower ch ∈ name.map toLower := hmap ▸ List.mem_map_of_mem hch
    obtain ⟨ch', hch', heq⟩ := List.mem_map.1 hlower
    refine ⟨ch', hch', ?_⟩
    rintro rfl
    exact hne (eq_of_toLower (by decide) heq.symm)

theorem appendElement_under (fs : HostFs) {element : Path} (h : IsElement element)
    (root : Path) (elements : List Path) :
    ∃ name, IsElement name ∧
      appendElement fs (under root elements) element = under root (elements ++ [name]) := by
  have hcut : (under root elements ++ '/' :: element).take
      ((under root elements ++ '/' :: element).length - element.length) =
      under root elements ++ ['/'] := by
    rw [List.append_cons, List.length_append, Nat.add_sub_cancel, List.take_left]
  rw [appendElement]
  split
  · exact ⟨element, h, (under_append ..).symm⟩
  · rw [hcut]
    dsimp only
    split
    case h_1 virtualName hfound =>
      refine ⟨virtualName, h.of_caseInsensitiveEquals (List.find?_some hfound), ?_⟩
      rw [under_append, List.append_assoc]
      rfl
    case h_2 =>
      refine ⟨element, h, ?_⟩
      rw [under_append, List.append_assoc]
      rfl

theorem visitElement_under {fs : HostFs} {element root result : Path} {elements : List Path}
    {depth depth' : Nat} (hne : element ≠ []) (hslash : '/' ∉ element)
    (hdepth : elements.length = depth) (helements : ∀ e ∈ elements, IsElement e)
    (h : visitElement fs element (under root elements) depth = some (result, depth')) :
    ∃ elements', result = under root elements' ∧ elements'.length = depth' ∧
      ∀ e ∈ elements', IsElement e := by
  rw [visitElement] at h
  split at h
  · cases h
    exact ⟨elements, rfl, hdepth, helements⟩
  · split at h
    · split at h
      · cases h
      case isFalse hpos =>
        cases h
        -- the depth says that there is an element to cut off
        have hnil : elements ≠ [] := by
          rintro rfl
          exact hpos hdepth.symm
        refine ⟨elements.dropLast, ?_, ?_, fun e he => helements e ((List.dropLast_sublist _).subset he)⟩
        · have hlast := helements _ (List.getLast_mem hnil)
          conv_lhs => rw [← List.dropLast_append_getLast hnil, under_append]
          exact removeElement_append hlast.no_slash _
        · rw [List.length_dropLast, hdepth]
    · split at h
      · cases h
      case isFalse hdots =>
        cases h
        have helement : IsElement element :=
          ⟨hne, hslash, by simpa using hdots⟩
        obtain ⟨name, hname, happend⟩ := appendElement_under fs helement root elements
        refine ⟨elements ++ [name], happend, ?_, fun e he => ?_⟩
        · rw [List.length_append, hdepth]
          rfl
        · obtain he | he := List.mem_append.1 he
          · exact helements e he
          · exact List.mem_singleton.1 he ▸ hname

theorem resolve_under {host : Nat → HostFs} {root : Path} {round : Nat} {work result : Path}
    {elements : List Path} {depth : Nat} (hwork : work.head? ≠ some '/')
    (hdepth : elements.length = depth) (helements : ∀ e ∈ elements, IsElement e)
    (h : resolve host round work (under root elements) depth = some result) :
    ∃ elements', result = under root elements' ∧ ∀ e ∈ elements', IsElement e := by
  induction hn : work.length using Nat.strong_induction_on
    generalizing round work elements depth with
  | _ n ih =>
    rw [resolve] at h
    split at h
    · cases h
      exact ⟨elements, rfl, helements⟩
    case isFalse hne =>
      -- the path does not start with a slash, so its first element is not empty
      have helement : work.takeWhile (· ≠ '/') ≠ [] := by
        obtain ⟨ch, rest, rfl⟩ := List.exists_cons_of_ne_nil hne
        have hch : ch ≠ '/' := fun heq => hwork (congrArg some heq)
        rw [List.takeWhile_cons_of_pos (by simpa using hch)]
        exact List.cons_ne_nil _ _
      have hslash : '/' ∉ work.takeWhile (· ≠ '/') := by
        intro hmem
        simpa using List.mem_takeWhile_imp hmem
      dsimp only at h
      split at h
      · cases h
      case h_2 next depth' hvisit =>
        obtain ⟨elements', rfl, hdepth', helements'⟩ :=
          visitElement_under helement hslash hdepth helements hvisit
        split at h
        · cases h
          exact ⟨elements', rfl, helements'⟩
        case h_2 slash rest hrest =>
          have hle := (List.dropWhile_sublist (l := work) (· ≠ '/')).length_le
          have hrest' := (List.dropWhile_sublist (l := rest) (· = '/')).length_le
          rw [hrest, List.length_cons] at hle
          refine ih _ (by omega) ?_ hdepth' helements' h rfl
          intro hhead
          have := List.head?_dropWhile_not (· = '/') rest
          rw [hhead] at this
          simp at this

/-- A path that is returned is the root it starts from, followed by elements. -/
theorem makeAbsoluteFromRelative_under {l : FileDataLoaderHostFS} {host : Nat → HostFs}
    {path result : Path} (h : makeAbsoluteFromRelative l host path = some result) :
    ∃ elements, result = under (if path.head? = some '/' then l.sdRoot else l.patchRoot) elements ∧
      ∀ e ∈ elements, e ≠ [] ∧ '/' ∉ e ∧ ∃ ch ∈ e, ch ≠ '.' := by
  rw [makeAbsoluteFromRelative] at h
  split at h
  · cases h
  case isFalse =>
    have hroot : l.root path = under (l.root path) [] := (List.append_nil _).symm
    rw [hroot] at h
    have hwork : ((path.dropWhile (· = '/')).rdropWhile (· = '/')).head? ≠ some '/' := by
      intro hhead
      obtain ⟨slashes, hslashes⟩ := List.rdropWhile_prefix (· = '/') (path.dropWhile (· = '/'))
      have hfirst := List.head?_dropWhile_not (· = '/') path
      rw [← hslashes, List.head?_append, hhead] at hfirst
      simp at hfirst
    obtain ⟨elements, hresult, helements⟩ :=
      resolve_under hwork rfl (fun e he => absurd he List.not_mem_nil) h
    exact ⟨elements, hresult, fun e he =>
      ⟨(helements e he).ne_nil, (helements e he).no_slash, (helements e he).not_dots⟩⟩

/-- A path that goes up and down again, and finds another spelling. -/
theorem makeAbsoluteFromRelative_under_card :
    ∃ elements, "sd/B".toList = under "sd".toList elements ∧
      ∀ e ∈ elements, e ≠ [] ∧ '/' ∉ e ∧ ∃ ch ∈ e, ch ≠ '.' := by
  have hresult : makeAbsoluteFromRelative
      { sdRoot := "sd".toList, patchRoot := "patch".toList, isWindows := false }
      (fun _ => { pathExists := fun _ => false, scanDirectoryTree := fun _ => [['B']] })
      "/a/..//b/".toList = some "sd/B".toList := by decide +kernel
  exact makeAbsoluteFromRelative_under hresult

end DolphinXR.DiscIO.Riivolution

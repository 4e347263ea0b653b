import ClassAtlas.Location
import Mathlib.Data.List.Basic

/-!
# What a URI tells

The scheme of a URI tells where a location comes from, and what follows the scheme tells which
location it is, as far as paths and entries can be told apart in it. A path is written with forward
slashes only, and `!/` stands between an archive and an entry: nothing of this is escaped.
-/

namespace ClassAtlas

/-! ## Paths -/

/-- The text of a path with forward slashes only. -/
def slashed (path : Path) : List Char :=
  path.text.toList.map fun c => if c = '\\' then '/' else c

theorem toList_fileUri (path : Path) : (fileUri path).toList = "file://".toList ++
    if (slashed path).head? = some '/' then slashed path else '/' :: slashed path := by
  have text : (String.ofList (slashed path)).toList = slashed path := String.toList_ofList
  show (if (String.ofList (slashed path)).toList.head? = some '/'
    then "file://" ++ String.ofList (slashed path)
    else "file:///" ++ String.ofList (slashed path)).toList = _
  rw [text]
  split
  · rw [String.toList_append, text]
  · rw [String.toList_append, text]
    rfl

/-! ## Schemes -/

theorem Location.head?_uri (location : Location) :
    location.uri.toList.head? = if location.isArchive then some 'j' else some 'f' := by
  cases location with
  | file root path =>
    rw [uri, toList_fileUri]
    rfl
  | jarEntry archive name =>
    rw [uri, String.toList_append, String.toList_append, String.toList_append]
    rfl
  | moduleEntry store module entry storage =>
    rw [uri, String.toList_append, String.toList_append, String.toList_append]
    rfl

/-- Locations of one URI are in archives together. -/
theorem Location.isArchive_congr {one other : Location} (same : one.uri = other.uri) :
    one.isArchive = other.isArchive := by
  have schemes := one.head?_uri
  rw [same, other.head?_uri] at schemes
  cases inOne : one.isArchive <;> cases inOther : other.isArchive <;> simp_all

/-! ## Separators -/

/-- The text between an archive and an entry of it. -/
def entryMark : List Char := ['!', '/']

/-- Where no mark is in front, the first mark is the mark. -/
theorem eq_nil_of_mark {front more back back' : List Char}
    (clean : ¬ entryMark <:+: front ++ more)
    (same : entryMark ++ back = more ++ (entryMark ++ back')) : more = [] := by
  match more with
  | [] => rfl
  | [c] =>
    -- The mark would have to go on with itself.
    have second : '/' = '!' := (List.cons.inj (List.cons.inj same).2).1
    exact absurd second (by decide)
  | c :: d :: more =>
    obtain ⟨rfl, rest⟩ := List.cons.inj same
    obtain ⟨rfl, _⟩ := List.cons.inj rest
    exact absurd ⟨front, more, by simp [entryMark]⟩ clean

theorem eq_of_mark {front front' back back' : List Char} (clean : ¬ entryMark <:+: front)
    (clean' : ¬ entryMark <:+: front')
    (same : front ++ (entryMark ++ back) = front' ++ (entryMark ++ back')) :
    front = front' ∧ back = back' := by
  rcases List.append_eq_append_iff.mp same with ⟨more, rfl, rest⟩ | ⟨more, rfl, rest⟩
  · have empty := eq_nil_of_mark clean' rest
    subst empty
    exact ⟨(List.append_nil _).symm, List.append_cancel_left rest⟩
  · have empty := eq_nil_of_mark clean rest
    subst empty
    exact ⟨List.append_nil _, (List.append_cancel_left rest).symm⟩

/-- Where no slash is in front, the first slash is the separator. -/
theorem eq_of_slash {front front' back back' : List Char} (clean : '/' ∉ front)
    (clean' : '/' ∉ front') (same : front ++ '/' :: back = front' ++ '/' :: back') :
    front = front' ∧ back = back' := by
  have parts := congrArg (List.splitOn '/') same
  rw [List.splitOn_append_cons_self, List.splitOn_append_cons_self,
    List.splitOn_eq_singleton clean, List.splitOn_eq_singleton clean'] at parts
  obtain ⟨heads, rest⟩ := List.cons.inj parts
  subst heads
  exact ⟨rfl, (List.cons.inj (List.append_cancel_left same)).2⟩

/-! ## Locations -/

/-- Nothing in the path of a file or archive reads like a separator that a URI does not escape. -/
def Location.Plain : Location → Prop
  | file _ path => '\\' ∉ path.text.toList
  | jarEntry archive _ =>
    '\\' ∉ archive.text.toList ∧ ¬ entryMark <:+: archive.text.toList
  | moduleEntry _ _ _ _ => True

instance (location : Location) : Decidable location.Plain :=
  match location with
  | .file _ path => inferInstanceAs (Decidable ('\\' ∉ path.text.toList))
  | .jarEntry archive _ => inferInstanceAs
      (Decidable ('\\' ∉ archive.text.toList ∧ ¬ entryMark <:+: archive.text.toList))
  | .moduleEntry _ _ _ _ => inferInstanceAs (Decidable True)

theorem slashed_of_plain {path : Path} (plain : '\\' ∉ path.text.toList) :
    slashed path = path.text.toList := by
  have kept : ∀ c ∈ path.text.toList, (if c = '\\' then '/' else c) = id c := by
    intro c inside
    have other : c ≠ '\\' := by
      rintro rfl
      exact plain inside
    rw [if_neg other, id]
  rw [slashed, List.map_congr_left kept, List.map_id]

/-- The URI of an absolute path holds the path as it is. -/
theorem toList_fileUri_of_plain {path : Path} (absolute : path.isAbsolute = true)
    (plain : '\\' ∉ path.text.toList) :
    (fileUri path).toList = "file://".toList ++ path.text.toList := by
  rw [toList_fileUri, slashed_of_plain plain, if_pos (of_decide_eq_true absolute)]

theorem fileUri_injective {path other : Path} (absolute : path.isAbsolute = true)
    (absolute' : other.isAbsolute = true) (plain : '\\' ∉ path.text.toList)
    (plain' : '\\' ∉ other.text.toList) (same : fileUri path = fileUri other) : path = other := by
  have texts := congrArg String.toList same
  rw [toList_fileUri_of_plain absolute plain, toList_fileUri_of_plain absolute' plain'] at texts
  have text := String.toList_injective (List.append_cancel_left texts)
  cases path
  cases other
  exact congrArg Path.mk text

/-- Archives and entries are told apart by their URIs, where the mark is nowhere in the path of an
archive. -/
theorem jarEntry_injective {archive archive' : Path} {name name' : String}
    (absolute : archive.isAbsolute = true) (absolute' : archive'.isAbsolute = true)
    (plain : (Location.jarEntry archive name).Plain)
    (plain' : (Location.jarEntry archive' name').Plain)
    (same : (Location.jarEntry archive name).uri = (Location.jarEntry archive' name').uri) :
    archive = archive' ∧ name = name' := by
  have texts := congrArg String.toList same
  simp only [Location.uri, String.toList_append, toList_fileUri_of_plain absolute plain.1,
    toList_fileUri_of_plain absolute' plain'.1, List.append_assoc, List.append_cancel_left_eq]
    at texts
  obtain ⟨archives, names⟩ := eq_of_mark plain.2 plain'.2 texts
  cases archive
  cases archive'
  exact ⟨congrArg Path.mk (String.toList_injective archives), String.toList_injective names⟩

/-- A module and an entry of it are told apart by the first slash. -/
theorem moduleEntry_injective {store store' : Path} {module module' entry entry' : String}
    {storage storage' : Storage} (clean : '/' ∉ module.toList) (clean' : '/' ∉ module'.toList)
    (same : (Location.moduleEntry store module entry storage).uri =
      (Location.moduleEntry store' module' entry' storage').uri) :
    module = module' ∧ entry = entry' := by
  have texts := congrArg String.toList same
  simp only [Location.uri, String.toList_append, List.append_assoc, List.append_cancel_left_eq]
    at texts
  obtain ⟨modules, entries⟩ := eq_of_slash clean clean' texts
  exact ⟨String.toList_injective modules, String.toList_injective entries⟩

/-- Archives and modules have different schemes. -/
theorem jarEntry_ne_moduleEntry (archive store : Path) (name module entry : String)
    (storage : Storage) :
    (Location.jarEntry archive name).uri ≠
      (Location.moduleEntry store module entry storage).uri := by
  intro same
  have texts := congrArg String.toList same
  simp only [Location.uri, String.toList_append, List.append_assoc] at texts
  have second := (List.cons.inj (List.cons.inj texts).2).1
  exact absurd second (by decide)

end ClassAtlas

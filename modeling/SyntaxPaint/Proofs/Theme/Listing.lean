import SyntaxPaint.Theme.Assets
import Mathlib.Data.List.Basic

/-!
Listed themes and themes that load. A listing makes names out of file names, loading makes file
names out of names. On which names the two disagree is told by `Mismatch`: names of directories,
names that are paths, and names that end like the longer suffix begins (`listed_iff_loads`).
-/
namespace SyntaxPaint

/- Entries of a directory. -/

namespace Directory

def node? (entries : List (ByteArray × FileNode)) (name : Text) : Option FileNode :=
  (entries.find? (·.1.data = (Text.utf8 name).data)).map (·.2)

theorem lookup_ofEntries (entries : List (ByteArray × FileNode)) (name : Text) :
    (ofEntries entries).lookup name = node? entries name := by
  unfold ofEntries node?
  induction entries with
  | nil => rfl
  | cons e entries ih =>
    by_cases here : e.1.data = (Text.utf8 name).data
    · have read := Text.ofUtf8?_eq_some.mpr (ByteArray.ext here)
      rw [List.filterMap_cons_some (by rw [read]; rfl),
        List.find?_cons_of_pos (by simpa using here)]
      simp
    · rw [List.find?_cons_of_neg (by simpa using here), ← ih]
      cases read : Text.ofUtf8? e.1 with
      | none => rw [List.filterMap_cons_none (by rw [read]; rfl)]
      | some t =>
        have other : (name == t) = false := by
          rw [beq_eq_false_iff_ne]
          rintro rfl
          exact here (congrArg ByteArray.data (Text.ofUtf8?_eq_some.mp read))
        rw [List.filterMap_cons_some (by rw [read]; rfl), List.lookup_cons, other]

end Directory

namespace ThemeAssets
open Directory

/- Names and file names. -/

theorem dropSuffix?_eq_some_iff {suffix t u : Text} :
    Text.dropSuffix? suffix t = some u ↔ t = u ++ suffix := by
  constructor
  · exact Text.dropSuffix?_eq_some
  · rintro rfl
    exact Text.dropSuffix?_append u suffix

theorem nameOfFile?_eq_some {file name : Text} :
    nameOfFile? file = some name ↔ name ≠ [] ∧ (file = name ++ ".min.css".toList ∨
      file = name ++ ".css".toList ∧ ¬ ".min".toList <:+ name) := by
  have joined (t : Text) : t ++ ".min.css".toList = (t ++ ".min".toList) ++ ".css".toList := by
    rw [List.append_assoc]
    rfl
  have found : suffixes.findSome? (Text.dropSuffix? · file) = some name ↔
      file = name ++ ".min.css".toList ∨
        file = name ++ ".css".toList ∧ ¬ ".min".toList <:+ name := by
    simp only [suffixes, List.findSome?_cons, List.findSome?_nil]
    cases long : Text.dropSuffix? ".min.css".toList file with
    | some m =>
      obtain rfl := Text.dropSuffix?_eq_some long
      simp only [Option.some.injEq, List.append_cancel_right_eq]
      constructor
      · exact Or.inl
      · rintro (same | ⟨same, short⟩)
        · exact same
        · rw [joined, List.append_cancel_right_eq] at same
          exact absurd ⟨m, same⟩ short
    | none =>
      have apart (t : Text) : file ≠ t ++ ".min.css".toList := by
        intro same
        rw [dropSuffix?_eq_some_iff.mpr same] at long
        cases long
      cases short : Text.dropSuffix? ".css".toList file with
      | some m =>
        obtain rfl := Text.dropSuffix?_eq_some short
        simp only [Option.some.injEq, List.append_cancel_right_eq, apart, false_or]
        constructor
        · rintro rfl
          refine ⟨rfl, ?_⟩
          rintro ⟨t, rfl⟩
          exact apart t (joined t).symm
        · exact And.left
      | none =>
        have none : file ≠ name ++ ".css".toList := by
          intro same
          rw [dropSuffix?_eq_some_iff.mpr same] at short
          cases short
        simp only [reduceCtorEq, apart, none, false_and, or_self]
  rw [nameOfFile?, Option.filter_eq_some_iff, found]
  simp [and_comm]

theorem entry_of_mem {entries : List (ByteArray × FileNode)} {name : Text} :
    (∃ node, (name, node) ∈ ofEntries entries) ↔ (node? entries name).isSome = true := by
  rw [← lookup_ofEntries, Option.isSome_iff_ne_none, ne_eq, List.lookup_eq_none_iff]
  simp

/- What is listed. -/

def IsBundled (name : Text) : Prop := ∃ source ∈ Theme.Bundled.all, source.name = name

/-- Whether an entry is that of a theme with the name. The longer suffix goes first: a name that
ends like it begins cannot come from the shorter one. -/
def Entered (entries : List (ByteArray × FileNode)) (name : Text) : Prop :=
  name ≠ [] ∧ ((node? entries (name ++ ".min.css".toList)).isSome = true ∨
    (node? entries (name ++ ".css".toList)).isSome = true ∧ ¬ ".min".toList <:+ name)

theorem mem_names {a : ThemeAssets} {entries : List (ByteArray × FileNode)}
    (inside : a.directory.getD [] = ofEntries entries) (name : Text) :
    name ∈ a.names ↔ IsBundled name ∨ Entered entries name := by
  have entered : (∃ e ∈ ofEntries entries, nameOfFile? e.1 = some name) ↔
      Entered entries name := by
    simp only [nameOfFile?_eq_some, Entered, ← entry_of_mem, Prod.exists]
    constructor
    · rintro ⟨file, node, member, some, rfl | ⟨rfl, short⟩⟩
      · exact ⟨some, Or.inl ⟨node, member⟩⟩
      · exact ⟨some, Or.inr ⟨⟨node, member⟩, short⟩⟩
    · rintro ⟨some, ⟨node, member⟩ | ⟨⟨node, member⟩, short⟩⟩
      · exact ⟨_, node, member, some, Or.inl rfl⟩
      · exact ⟨_, node, member, some, Or.inr ⟨rfl, short⟩⟩
  rw [names, List.mem_mergeSort, List.mem_eraseDups, List.mem_append, List.mem_map, inside,
    List.mem_filterMap, entered]
  rfl

theorem nodup_eraseDups (names : List Text) : names.eraseDups.Nodup := by
  induction length : names.length using Nat.strongRecOn generalizing names with
  | ind n ih =>
    cases names with
    | nil => simp
    | cons name rest =>
      rw [List.eraseDups_cons, List.nodup_cons]
      have shorter : (rest.filter fun other => !other == name).length < n := by
        have less := List.length_filter_le (fun other => !other == name) rest
        simp only [List.length_cons] at length
        omega
      exact ⟨by simp, ih _ shorter _ rfl⟩

theorem names_ascending (a : ThemeAssets) :
    a.names.Pairwise fun x y => Text.atMost y x = false := by
  have sorted : a.names.Pairwise fun x y => Text.atMost x y = true := by
    apply List.pairwise_mergeSort
    · exact fun _ _ _ => Text.atMost_trans
    · exact Text.atMost_total
  have distinct : a.names.Nodup := (List.mergeSort_perm _ _).nodup_iff.mpr (nodup_eraseDups _)
  apply sorted.imp₂ _ distinct
  intro x y upward differ
  by_contra downward
  rw [Bool.not_eq_false] at downward
  exact differ (Text.atMost_antisymm upward downward)

/- What loads. -/

def Filed (entries : List (ByteArray × FileNode)) (name : Text) : Prop :=
  ∃ suffix ∈ suffixes, ∃ content, node? entries (name ++ suffix) = some (.file content)

theorem filed_iff {entries : List (ByteArray × FileNode)} {name : Text} :
    Filed entries name ↔
      (∃ content, node? entries (name ++ ".min.css".toList) = some (.file content)) ∨
        ∃ content, node? entries (name ++ ".css".toList) = some (.file content) := by
  unfold Filed suffixes
  simp only [List.mem_cons, List.not_mem_nil, or_false, exists_eq_or_imp, exists_eq_left]

theorem file?_isSome_iff {a : ThemeAssets} {entries : List (ByteArray × FileNode)}
    (inside : a.directory.getD [] = ofEntries entries) (name : Text) :
    (a.file? name).isSome = true ↔ Filed entries name := by
  unfold file? Filed
  rw [List.findSome?_isSome_iff, inside]
  simp only [lookup_ofEntries]
  apply exists_congr
  intro suffix
  apply and_congr_right
  intro _
  cases node? entries (name ++ suffix) with
  | none => simp
  | some node => cases node <;> simp

theorem plain_of_bundled {name : Text} (bundled : IsBundled name) : isPlainName name = true := by
  obtain ⟨source, member, rfl⟩ := bundled
  revert source
  decide

theorem load_ne_notFound_iff {a : ThemeAssets} {entries : List (ByteArray × FileNode)}
    (inside : a.directory.getD [] = ofEntries entries) (name : Text) :
    (∀ other, a.load name ≠ .error (.themeNotFound other)) ↔
      isPlainName name = true ∧ (Filed entries name ∨ IsBundled name) := by
  rw [← file?_isSome_iff inside]
  unfold load
  cases plain : isPlainName name with
  | false => simp
  | true =>
    cases file : a.file? name with
    | some content => cases read : Text.ofUtf8? content <;> simp [read]
    | none =>
      cases bundled : Theme.Bundled.all.find? (·.name == name) with
      | some source =>
        have here : IsBundled name :=
          ⟨source, List.mem_of_find?_eq_some bundled, by simpa using List.find?_some bundled⟩
        simp [here]
      | none =>
        have absent : ¬ IsBundled name := by
          rintro ⟨source, member, rfl⟩
          simpa using List.find?_eq_none.mp bundled source member
        simp [absent]

/-- The names on which listing and loading disagree. -/
inductive Mismatch (entries : List (ByteArray × FileNode)) (name : Text) : Prop
  | directory (entered : Entered entries name) (empty : ¬ Filed entries name)
  | path (entered : Entered entries name) (unplain : isPlainName name = false)
  | longer (plain : isPlainName name = true) (ends : ".min".toList <:+ name) {content : ByteArray}
      (file : node? entries (name ++ ".css".toList) = some (.file content))
      (only : node? entries (name ++ ".min.css".toList) = none)

theorem entered_iff_filed {entries : List (ByteArray × FileNode)} {name : Text} :
    (Entered entries name ↔ isPlainName name = true ∧ Filed entries name) ↔
      ¬ Mismatch entries name := by
  constructor
  · intro agree mismatch
    cases mismatch with
    | directory entered empty => exact empty (agree.mp entered).2
    | path entered unplain =>
      have plain := (agree.mp entered).1
      rw [unplain] at plain
      cases plain
    | longer plain ends file only =>
      obtain ⟨_, long | ⟨_, short⟩⟩ := agree.mpr ⟨plain, filed_iff.mpr (Or.inr ⟨_, file⟩)⟩
      · rw [only] at long
        cases long
      · exact short ends
  · intro match_
    constructor
    · intro entered
      constructor
      · by_contra unplain
        exact match_ (.path entered (Bool.eq_false_iff.mpr unplain))
      · by_contra empty
        exact match_ (.directory entered empty)
    · rintro ⟨plain, filed⟩
      have some : name ≠ [] := by
        rintro rfl
        cases plain
      refine ⟨some, ?_⟩
      cases only : node? entries (name ++ ".min.css".toList) with
      | some node => exact Or.inl rfl
      | none =>
        rcases filed_iff.mp filed with ⟨content, file⟩ | ⟨content, file⟩
        · rw [only] at file
          cases file
        · right
          refine ⟨by rw [file]; rfl, ?_⟩
          intro ends
          exact match_ (.longer plain ends file only)

/-- The listed themes stand in strictly ascending order. A name of a bundled theme is listed and
loads; any other one is listed if and only if it loads, unless it is a mismatch. -/
theorem listed_iff_loads (found : Option (List (ByteArray × FileNode))) :
    let a : ThemeAssets := ⟨found.map ofEntries⟩
    (a.names.Pairwise fun x y => Text.atMost y x = false) ∧
    ∀ name, (name ∈ a.names ↔ ∀ other, a.load name ≠ .error (.themeNotFound other)) ↔
      IsBundled name ∨ ¬ Mismatch (found.getD []) name := by
  intro a
  have inside : a.directory.getD [] = ofEntries (found.getD []) := by
    cases found <;> rfl
  refine ⟨names_ascending a, ?_⟩
  intro name
  rw [mem_names inside, load_ne_notFound_iff inside]
  by_cases bundled : IsBundled name
  · simp [bundled, plain_of_bundled bundled]
  · simp [bundled, entered_iff_filed]

/-- A directory is called like a theme file. -/
theorem directory_listed_not_loaded :
    let a : ThemeAssets := ⟨some (ofEntries [(Text.utf8 "x.css".toList, .directory [])])⟩
    "x".toList ∈ a.names ∧ a.load "x".toList = .error (.themeNotFound "x".toList) := by
  intro a
  have inside : a.directory.getD [] =
      ofEntries [(Text.utf8 "x.css".toList, .directory [])] := rfl
  have entered : Entered [(Text.utf8 "x.css".toList, .directory [])] "x".toList := by
    unfold Entered
    decide +kernel
  constructor
  · exact (mem_names inside _).mpr (Or.inr entered)
  · decide +kernel

end ThemeAssets

end SyntaxPaint

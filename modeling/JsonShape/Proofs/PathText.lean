import JsonShape.Path.Basic

/-!
# Path text — a path is read back from its text

Nothing stands between the segments in a path's text, but each begins with a
mark, a dot or an opening bracket, and where the segment is plain no other mark
follows. So the text can be cut before each mark and the pieces read one by one.
Such pieces, written one after another, are what a text is cut into:
`Path.cut_eq_iff`. Since a segment is read back from its text, a text is read as
a path exactly where it is the text of a plain one, and plain paths with one text
are the same path.
-/

namespace JsonShape

/-! ## The reader -/

/-- No dot and no opening bracket in a name. -/
def Segment.Plain : Segment → Prop
  | .field name => '.' ∉ name.toList ∧ '[' ∉ name.toList
  | .index _ => True

instance : DecidablePred Segment.Plain
  | .field name => inferInstanceAs (Decidable ('.' ∉ name.toList ∧ '[' ∉ name.toList))
  | .index _ => inferInstanceAs (Decidable True)

/-- A path whose names contain no dot and no opening bracket. -/
def Path.Plain (path : Path) : Prop :=
  ∀ segment ∈ path.segments, segment.Plain

instance : DecidablePred Path.Plain := fun path =>
  inferInstanceAs (Decidable (∀ segment ∈ path.segments, segment.Plain))

/-- The segment that a piece of text stands for, where the piece is how the
segment is written. -/
def Segment.read? : List Char → Option Segment
  | '.' :: name => some (.field (String.ofList name))
  | piece =>
      let segment := Segment.index (Nat.ofDigitChars 10 (piece.filter Char.isDigit) 0)
      if segment.pathText.toList = piece then some segment else none

namespace Path

/-- Cuts a text before every dot and every opening bracket: what stands
before the first of them, and the pieces. -/
def cut : List Char → List Char × List (List Char)
  | [] => ([], [])
  | c :: rest =>
      if c = '.' ∨ c = '[' then ([], (c :: (cut rest).1) :: (cut rest).2)
      else (c :: (cut rest).1, (cut rest).2)

/-- The path that a text stands for, if all of it is made of segments. -/
def read? (text : String) : Option Path :=
  match cut text.toList with
  | ([], pieces) => (pieces.mapM Segment.read?).map Path.mk
  | _ => none

end Path

/-! ## Cutting before marks -/

namespace Path

/-- What a segment's text begins with. -/
def Mark (c : Char) : Prop :=
  c = '.' ∨ c = '['

instance : DecidablePred Mark := fun c =>
  inferInstanceAs (Decidable (c = '.' ∨ c = '['))

/-- A mark, and no other after it. -/
def Piece : List Char → Prop
  | [] => False
  | c :: rest => Mark c ∧ ∀ d ∈ rest, ¬ Mark d

theorem cut_mark {c : Char} (h : Mark c) (rest : List Char) :
    cut (c :: rest) = ([], (c :: (cut rest).1) :: (cut rest).2) :=
  if_pos h

theorem cut_unmarked {c : Char} (h : ¬ Mark c) (rest : List Char) :
    cut (c :: rest) = (c :: (cut rest).1, (cut rest).2) :=
  if_neg h

/-- A word without marks is not cut. -/
theorem cut_word {word : List Char} (h : ∀ c ∈ word, ¬ Mark c) (rest : List Char) :
    cut (word ++ rest) = (word ++ (cut rest).1, (cut rest).2) := by
  induction word with
  | nil => rfl
  | cons c word ih =>
      have hword := ih fun d hd => h d (List.mem_cons_of_mem _ hd)
      rw [List.cons_append, cut_unmarked (h c List.mem_cons_self), hword]
      rfl

/-- A piece before a text that begins with a mark, or is empty, is cut off. -/
theorem cut_piece {piece rest : List Char} (h : Piece piece)
    (hrest : (cut rest).1 = []) :
    cut (piece ++ rest) = ([], piece :: (cut rest).2) := by
  cases piece with
  | nil => exact h.elim
  | cons c word =>
      obtain ⟨hmark, hword⟩ := h
      rw [List.cons_append, cut_mark hmark, cut_word hword, hrest, List.append_nil]

theorem cut_flatten {pieces : List (List Char)} (h : ∀ piece ∈ pieces, Piece piece) :
    cut pieces.flatten = ([], pieces) := by
  induction pieces with
  | nil => rfl
  | cons piece pieces ih =>
      have hrest := ih fun other hm => h other (List.mem_cons_of_mem _ hm)
      rw [List.flatten_cons, cut_piece (h piece List.mem_cons_self) (by rw [hrest]),
        hrest]

/-- Nothing is lost by cutting. -/
theorem flatten_cut (text : List Char) :
    (cut text).1 ++ (cut text).2.flatten = text := by
  induction text with
  | nil => rfl
  | cons c rest ih =>
      by_cases hmark : Mark c
      · rw [cut_mark hmark, List.flatten_cons, List.nil_append, List.cons_append, ih]
      · rw [cut_unmarked hmark, List.cons_append, ih]

/-- There is no mark before the first cut, and pieces are what follows. -/
theorem cut_parts (text : List Char) :
    (∀ c ∈ (cut text).1, ¬ Mark c) ∧ ∀ piece ∈ (cut text).2, Piece piece := by
  induction text with
  | nil => exact ⟨nofun, nofun⟩
  | cons c rest ih =>
      obtain ⟨hbefore, hpieces⟩ := ih
      by_cases hmark : Mark c
      · rw [cut_mark hmark]
        exact ⟨nofun, List.forall_mem_cons.mpr ⟨⟨hmark, hbefore⟩, hpieces⟩⟩
      · rw [cut_unmarked hmark]
        exact ⟨List.forall_mem_cons.mpr ⟨hmark, hbefore⟩, hpieces⟩

theorem cut_eq_iff {text : List Char} {pieces : List (List Char)} :
    cut text = ([], pieces) ↔
      (∀ piece ∈ pieces, Piece piece) ∧ pieces.flatten = text := by
  constructor
  · intro h
    have hparts := (cut_parts text).2
    have htext := flatten_cut text
    rw [h] at hparts htext
    exact ⟨hparts, htext⟩
  · rintro ⟨hpieces, rfl⟩
    exact cut_flatten hpieces

end Path

/-! ## Segments -/

namespace Segment

theorem toList_pathText_field (name : String) :
    (field name).pathText.toList = '.' :: name.toList := by
  simp [pathText]

/-- A segment is plain where its text has no mark but the first character. -/
theorem piece_pathText_iff (segment : Segment) :
    Path.Piece segment.pathText.toList ↔ segment.Plain := by
  cases segment with
  | field name =>
      rw [toList_pathText_field, Plain]
      constructor
      · rintro ⟨_, hname⟩
        exact ⟨fun hdot => hname _ hdot (.inl rfl),
          fun hbracket => hname _ hbracket (.inr rfl)⟩
      · rintro ⟨hdot, hbracket⟩
        refine ⟨.inl rfl, ?_⟩
        rintro c hc (rfl | rfl)
        · exact hdot hc
        · exact hbracket hc
  | index position =>
      rw [pathText, toList_text_index]
      refine iff_of_true ⟨.inr rfl, fun c hc hmark => ?_⟩ trivial
      rcases mem_text_index_tail hc with rfl | rfl | hdigit
      · exact absurd hmark (by decide)
      · exact absurd hmark (by decide)
      · rcases hmark with rfl | rfl <;> exact absurd hdigit (by decide)

/-- A segment is read back from its text, plain or not. -/
theorem read?_pathText (segment : Segment) :
    read? segment.pathText.toList = some segment := by
  cases segment with
  | field name => rw [toList_pathText_field, read?, String.ofList_toList]
  | index position =>
      -- of an index only the digits are kept, and written again they give its text
      have hdigits : (Nat.toDigits 10 position).filter Char.isDigit =
          Nat.toDigits 10 position :=
        List.filter_eq_self.mpr fun c hc =>
          Nat.isDigit_of_mem_toDigits (by decide) (by decide) hc
      rw [pathText, toList_text_index, read?]
      · simp [hdigits, pathText, toList_text_index]
      · nofun

theorem read?_eq_some_iff {piece : List Char} {segment : Segment} :
    read? piece = some segment ↔ segment.pathText.toList = piece := by
  refine ⟨fun h => ?_, fun h => h ▸ read?_pathText segment⟩
  unfold read? at h
  split at h
  · cases h
    rw [toList_pathText_field, String.toList_ofList]
  · obtain ⟨hpiece, hsegment⟩ := Option.ite_none_right_eq_some.mp h
    exact Option.some.inj hsegment ▸ hpiece

end Segment

/-! ## Whole paths -/

/-- A reader that accepts just what a writer writes does so on lists. -/
theorem mapM_eq_some_iff {α β : Type} {read : α → Option β} {write : β → α}
    (h : ∀ a b, read a = some b ↔ write b = a) {as : List α} {bs : List β} :
    as.mapM read = some bs ↔ bs.map write = as := by
  induction as generalizing bs with
  | nil => simp [eq_comm]
  | cons a as ih =>
      cases bs with
      | nil => simp [List.mapM_cons, Option.bind_eq_some_iff]
      | cons b bs => simp [List.mapM_cons, Option.bind_eq_some_iff, h, ih]

namespace Path

theorem toList_text (path : Path) :
    path.text.toList =
      (path.segments.map fun segment => segment.pathText.toList).flatten := by
  rw [text, String.toList_join, List.flatMap_map, List.flatMap_def]

theorem plain_iff_pieces (path : Path) :
    path.Plain ↔ ∀ piece ∈ path.segments.map fun segment => segment.pathText.toList,
      Piece piece := by
  rw [List.forall_mem_map]
  exact forall₂_congr fun segment _ => segment.piece_pathText_iff.symm

theorem read?_eq_some_iff_cut {text : String} {path : Path} :
    read? text = some path ↔
      ∃ pieces, cut text.toList = ([], pieces) ∧
        pieces.mapM Segment.read? = some path.segments := by
  have hmk : ∀ segments, Path.mk segments = path ↔ segments = path.segments :=
    fun segments => ⟨fun h => h ▸ rfl, fun h => h ▸ rfl⟩
  unfold read?
  split
  · rename_i pieces hcut
    simp [hcut, Option.map_eq_some_iff, hmk]
  · rename_i hnot
    refine iff_of_false nofun ?_
    rintro ⟨pieces, hcut, _⟩
    exact hnot pieces hcut

/-- The reader accepts the texts of plain paths and no others. -/
theorem read?_eq_some_iff {text : String} {path : Path} :
    read? text = some path ↔ path.Plain ∧ path.text = text := by
  have hsegments : ∀ pieces, pieces.mapM Segment.read? = some path.segments ↔
      (path.segments.map fun segment => segment.pathText.toList) = pieces :=
    fun _ => mapM_eq_some_iff fun _ _ => Segment.read?_eq_some_iff
  calc read? text = some path
    _ ↔ ∃ pieces, cut text.toList = ([], pieces) ∧
          (path.segments.map fun segment => segment.pathText.toList) = pieces := by
        simp only [read?_eq_some_iff_cut, hsegments]
    _ ↔ cut text.toList =
          ([], path.segments.map fun segment => segment.pathText.toList) :=
        exists_eq_right'
    _ ↔ path.Plain ∧ path.text = text := by
        rw [cut_eq_iff, ← plain_iff_pieces, ← toList_text, String.toList_inj]

/-- A text is read as a path exactly where the path is plain and this is its text. So
plain paths with one text are the same, segment by segment. -/
theorem plain_text_unambiguous :
    (∀ text path, read? text = some path ↔ path.Plain ∧ path.text = text) ∧
      ∀ p q : Path, p.Plain → q.Plain → p.text = q.text → p.segments = q.segments := by
  refine ⟨fun _ _ => read?_eq_some_iff, fun p q hp hq htext => ?_⟩
  have hread : read? p.text = some p := read?_eq_some_iff.mpr ⟨hp, rfl⟩
  have hread' : read? p.text = some q := read?_eq_some_iff.mpr ⟨hq, htext.symm⟩
  exact congrArg segments (Option.some.inj (hread.symm.trans hread'))

/-- Empty names, a name that ends like an index and indexes side by side. -/
def knotty : Path :=
  ((((root.field "").index 7).index 0).field " 7 ]").field ""

/-- The same segments, put together from two paths. -/
def knottyRejoined : Path :=
  ((root.field "").index 7 ++ (root.index 0).field " 7 ]").field ""

theorem knotty_read_back :
    knotty.Plain ∧ knottyRejoined.Plain ∧ knotty.text = ".[ 7 ][ 0 ]. 7 ]." ∧
      knotty.text = knottyRejoined.text ∧ read? ".[ 7 ][ 0 ]. 7 ]." = some knotty ∧
      knotty.segments = knottyRejoined.segments := by
  have hknotty : knotty.Plain := by decide
  have hrejoined : knottyRejoined.Plain := by decide
  have htext : knotty.text = ".[ 7 ][ 0 ]. 7 ]." := by decide
  have hsame : knotty.text = knottyRejoined.text := by decide
  have hread := (plain_text_unambiguous.1 _ _).mpr ⟨hknotty, htext⟩
  have hsegments :=
    plain_text_unambiguous.2 knotty knottyRejoined hknotty hrejoined hsame
  exact ⟨hknotty, hrejoined, htext, hsame, hread, hsegments⟩

/-- A name with a dot in it reads as two names. -/
example : (root.field "a.b").text = ((root.field "a").field "b").text := by decide

end Path

end JsonShape

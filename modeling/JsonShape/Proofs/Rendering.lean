import JsonShape.Failure.Basic

/-!
# Rendering — a failure is read back from its rendering

Below the root a rendering is the outline of the path, an empty line and the message.
No line of the outline is empty where every segment fills a line and the indent has no
line break, so the first empty line of the rendering is the one after the outline. The
level of a line is then its place, and without its indents it is a segment's text: this
holds of an empty indent too, and of names that begin with the indent.
-/

namespace JsonShape

/-! ## The reader -/

/-- A segment whose text fills a line: not empty, and not more than one. -/
def Segment.FillsLine : Segment → Prop
  | .field name => name ≠ "" ∧ '\n' ∉ name.toList
  | .index _ => True

instance : DecidablePred Segment.FillsLine
  | .field name => inferInstanceAs (Decidable (name ≠ "" ∧ '\n' ∉ name.toList))
  | .index _ => inferInstanceAs (Decidable True)

namespace Failure

/-- What a text holds before its first empty line and after it. -/
def splitAtEmptyLine : List Char → Option (List Char × List Char)
  | [] => none
  | c :: rest =>
      match c, rest with
      | '\n', '\n' :: message => some ([], message)
      | _, _ => (splitAtEmptyLine rest).map fun parts => (c :: parts.1, parts.2)

/-- The lines of a text; an empty text is one empty line. -/
def splitLines : List Char → List (List Char)
  | [] => [[]]
  | c :: rest =>
      if c = '\n' then [] :: splitLines rest
      else match splitLines rest with
        | [] => [[c]]
        | line :: more => (c :: line) :: more

/-- A line without the indents that lead it in, if it has them all. -/
def outdent (indent : List Char) (level : Nat) (line : List Char) :
    Option (List Char) :=
  let margin := (List.replicate level indent).flatten
  if margin <+: line then some (line.drop margin.length) else none

/-- The segments' texts and the message of a rendering that is not of the
root. -/
def readRendering (indent : String) (rendering : String) :
    Option (List String × String) := do
  let (outline, message) ← splitAtEmptyLine rendering.toList
  let texts ← (splitLines outline).zipIdx.mapM fun line =>
    outdent indent.toList line.2 line.1
  return (texts.map String.ofList, String.ofList message)

end Failure

/-! ## Paths that are read back -/

/-- A path below the root of which each segment fills a line. -/
structure Path.FillsLines (path : Path) : Prop where
  below : path ≠ .root
  filled : ∀ segment ∈ path.segments, segment.FillsLine

/-- What is written one by one is read one by one. -/
theorem mapM_map_eq_some {α β γ : Type} {read : α → Option β} {write : γ → α}
    {meant : γ → β} (h : ∀ c, read (write c) = some (meant c)) (cs : List γ) :
    (cs.map write).mapM read = some (cs.map meant) := by
  rw [List.mapM_map, show read ∘ write = fun c => pure (meant c) from funext h]
  exact List.mapM_pure

namespace Failure

/-! ## Lines -/

/-- Not empty, and without a line break. -/
def Filled (line : List Char) : Prop :=
  line ≠ [] ∧ '\n' ∉ line

theorem splitLines_ne_nil (text : List Char) : splitLines text ≠ [] := by
  cases text with
  | nil => nofun
  | cons c rest =>
      rw [splitLines]
      split
      · nofun
      · split <;> nofun

theorem splitLines_break (rest : List Char) :
    splitLines ('\n' :: rest) = [] :: splitLines rest :=
  if_pos rfl

/-- A character other than a line break belongs to the first line. -/
theorem splitLines_cons {c : Char} (h : c ≠ '\n') {rest line : List Char}
    {more : List (List Char)} (hrest : splitLines rest = line :: more) :
    splitLines (c :: rest) = (c :: line) :: more := by
  rw [splitLines, if_neg h, hrest]

/-- At a line break the lines before it end and those after it begin. -/
theorem splitLines_append (above below : List Char) :
    splitLines (above ++ '\n' :: below) = splitLines above ++ splitLines below := by
  induction above with
  | nil => exact splitLines_break below
  | cons c rest ih =>
      rw [List.cons_append]
      by_cases hc : c = '\n'
      · rw [hc, splitLines_break, splitLines_break, ih, List.cons_append]
      · obtain ⟨line, more, hrest⟩ :=
          List.exists_cons_of_ne_nil (splitLines_ne_nil rest)
        rw [hrest] at ih
        rw [splitLines_cons hc ih, splitLines_cons hc hrest]
        rfl

theorem splitLines_of_not_mem {line : List Char} (h : '\n' ∉ line) :
    splitLines line = [line] := by
  induction line with
  | nil => rfl
  | cons c rest ih =>
      rw [List.mem_cons, not_or] at h
      exact splitLines_cons (Ne.symm h.1) (ih h.2)

/-- Lines that are joined by line breaks are found again. -/
theorem splitLines_intercalate {lines : List (List Char)} (hne : lines ≠ [])
    (h : ∀ line ∈ lines, '\n' ∉ line) :
    splitLines (['\n'].intercalate lines) = lines := by
  induction lines with
  | nil => exact absurd rfl hne
  | cons line rest ih =>
      obtain ⟨hline, hrest⟩ := List.forall_mem_cons.mp h
      cases rest with
      | nil =>
          rw [List.intercalate_singleton]
          exact splitLines_of_not_mem hline
      | cons next more =>
          rw [List.intercalate_cons_cons, List.append_assoc, List.singleton_append,
            splitLines_append, splitLines_of_not_mem hline, ih nofun hrest,
            List.singleton_append]

/-! ## The first empty line -/

/-- Unless this character and the next one are line breaks, the empty line comes
later. -/
theorem splitAtEmptyLine_cons {c : Char} {rest : List Char}
    (h : c ≠ '\n' ∨ rest.head? ≠ some '\n') :
    splitAtEmptyLine (c :: rest) =
      (splitAtEmptyLine rest).map fun parts => (c :: parts.1, parts.2) := by
  rw [splitAtEmptyLine]
  rintro message rfl rfl
  rcases h with h | h <;> exact h rfl

theorem splitAtEmptyLine_line {line : List Char} (h : '\n' ∉ line) (rest : List Char) :
    splitAtEmptyLine (line ++ rest) =
      (splitAtEmptyLine rest).map fun parts => (line ++ parts.1, parts.2) := by
  induction line with
  | nil => exact Option.map_id'.symm
  | cons c line ih =>
      rw [List.mem_cons, not_or] at h
      rw [List.cons_append, splitAtEmptyLine_cons (.inl (Ne.symm h.1)), ih h.2,
        Option.map_map]
      rfl

/-- A text whose first line is filled does not begin with a line break. -/
theorem head?_intercalate_ne {first : List Char} (h : Filled first)
    (more : List (List Char)) (rest : List Char) :
    (['\n'].intercalate (first :: more) ++ rest).head? ≠ some '\n' := by
  obtain ⟨hne, hbreak⟩ := h
  obtain ⟨c, line, rfl⟩ := List.exists_cons_of_ne_nil hne
  have hc : c ≠ '\n' := fun hc => hbreak (hc ▸ List.mem_cons_self)
  cases more with
  | nil => simpa using hc
  | cons next more => simpa [List.intercalate_cons_cons] using hc

/-- Filled lines end at the first empty line, whatever comes after it. -/
theorem splitAtEmptyLine_intercalate {lines : List (List Char)} (hne : lines ≠ [])
    (h : ∀ line ∈ lines, Filled line) (message : List Char) :
    splitAtEmptyLine (['\n'].intercalate lines ++ '\n' :: '\n' :: message) =
      some (['\n'].intercalate lines, message) := by
  induction lines with
  | nil => exact absurd rfl hne
  | cons line rest ih =>
      obtain ⟨⟨_, hbreak⟩, hrest⟩ := List.forall_mem_cons.mp h
      cases rest with
      | nil =>
          rw [List.intercalate_singleton, splitAtEmptyLine_line hbreak]
          show some (line ++ [], message) = some (line, message)
          rw [List.append_nil]
      | cons next more =>
          -- the break after the line ends no empty line, since the next one is filled
          have hnext := head?_intercalate_ne (hrest next List.mem_cons_self) more
          rw [List.intercalate_cons_cons, List.append_assoc, List.append_assoc,
            List.singleton_append, splitAtEmptyLine_line hbreak,
            splitAtEmptyLine_cons (.inr (hnext _)), ih nofun hrest, List.append_assoc]
          rfl

/-! ## Outlines -/

theorem Filled.after {margin line : List Char} (hmargin : '\n' ∉ margin)
    (h : Filled line) : Filled (margin ++ line) := by
  refine ⟨List.append_ne_nil_of_right_ne_nil _ h.1, fun hbreak => ?_⟩
  rcases List.mem_append.mp hbreak with hbreak | hbreak
  · exact hmargin hbreak
  · exact h.2 hbreak

theorem filled_text {segment : Segment} (h : segment.FillsLine) :
    Filled segment.text.toList := by
  cases segment with
  | field name =>
      obtain ⟨hname, hbreak⟩ := h
      exact ⟨fun hempty => hname (String.toList_eq_nil_iff.mp hempty), hbreak⟩
  | index position =>
      rw [Segment.toList_text_index]
      refine ⟨List.cons_ne_nil _ _, fun hbreak => ?_⟩
      rcases List.mem_cons.mp hbreak with hbracket | hrest
      · exact absurd hbracket (by decide)
      · rcases Segment.mem_text_index_tail hrest with h | h | h <;>
          exact absurd h (by decide)

theorem toList_indented (indent text : String) (level : Nat) :
    (String.join (List.replicate level indent) ++ text).toList =
      (List.replicate level indent.toList).flatten ++ text.toList := by
  rw [String.toList_append, String.toList_join, List.flatMap_def, List.map_replicate]

theorem getElem?_outline (indent : String) (path : Path) (level : Nat) :
    (outline indent path)[level]? = (path.segments[level]?).map fun segment =>
      String.join (List.replicate level indent) ++ segment.text :=
  List.getElem?_mapIdx

/-- Indented by what has no line break, filled lines are filled. -/
theorem filled_outline {indent : String} (hindent : '\n' ∉ indent.toList) {path : Path}
    (h : ∀ segment ∈ path.segments, segment.FillsLine) :
    ∀ line ∈ (outline indent path).map String.toList, Filled line := by
  rw [List.forall_mem_map]
  intro line hline
  obtain ⟨level, hlevel⟩ := List.mem_iff_getElem?.mp hline
  rw [getElem?_outline] at hlevel
  obtain ⟨segment, hsegment, rfl⟩ := Option.map_eq_some_iff.mp hlevel
  rw [toList_indented]
  refine .after (fun hbreak => ?_)
    (filled_text (h segment (List.mem_of_getElem? hsegment)))
  obtain ⟨_, hmem, hbreak⟩ := List.mem_flatten.mp hbreak
  exact hindent (List.eq_of_mem_replicate hmem ▸ hbreak)

theorem outdent_indented (indent line : List Char) (level : Nat) :
    outdent indent level ((List.replicate level indent).flatten ++ line) =
      some line := by
  rw [outdent, if_pos (List.prefix_append ..), List.drop_left]

/-- Each line of an outline, without as many indents as there are lines above it, is a
segment's text. -/
theorem outdent_outline (indent : String) (path : Path) :
    ((outline indent path).map String.toList).zipIdx.mapM
        (fun line => outdent indent.toList line.2 line.1) =
      some (path.segments.map fun segment => segment.text.toList) := by
  -- a line's number is how often it was indented
  have hlines : ((outline indent path).map String.toList).zipIdx =
      path.segments.zipIdx.map fun segment =>
        ((List.replicate segment.2 indent.toList).flatten ++ segment.1.text.toList,
          segment.2) := by
    apply List.ext_getElem?
    intro level
    simp only [List.getElem?_zipIdx, List.getElem?_map, getElem?_outline,
      Option.map_map, Function.comp_def, toList_indented, Nat.zero_add]
  have htexts : path.segments.zipIdx.map (fun segment => segment.1.text.toList) =
      path.segments.map fun segment => segment.text.toList := by
    conv => rhs; rw [← List.zipIdx_map_fst 0 path.segments, List.map_map]
    rfl
  rw [hlines, ← htexts]
  apply mapM_map_eq_some
  intro segment
  exact outdent_indented ..

/-! ## Renderings -/

variable {failure : Failure} {indent : String}

/-- Below the root an outline has a line. -/
theorem outline_ne_nil {path : Path} (h : path ≠ .root) : outline indent path ≠ [] :=
  fun hempty => h (Path.ext_segments (List.mapIdx_eq_nil_iff.mp hempty))

theorem render_below_root (h : failure.path ≠ .root) :
    failure.render indent =
      "\n".intercalate (outline indent failure.path) ++ "\n\n" ++ failure.message :=
  if_neg fun hroot => h (Path.isRoot_iff.mp hroot)

theorem toList_render (h : failure.path ≠ .root) :
    (failure.render indent).toList =
      ['\n'].intercalate ((outline indent failure.path).map String.toList) ++
        '\n' :: '\n' :: failure.message.toList := by
  rw [render_below_root h, String.toList_append, String.toList_append,
    String.toList_intercalate, List.append_assoc]
  rfl

theorem splitLines_outline (hindent : '\n' ∉ indent.toList) {path : Path}
    (h : path.FillsLines) :
    splitLines (['\n'].intercalate ((outline indent path).map String.toList)) =
      (outline indent path).map String.toList :=
  splitLines_intercalate (mt List.map_eq_nil_iff.mp (outline_ne_nil h.below))
    fun line hline =>
    (filled_outline hindent h.filled line hline).2

/-- The lines of a rendering are those of the outline, an empty one and those of the
message. -/
theorem splitLines_render (hindent : '\n' ∉ indent.toList)
    (h : failure.path.FillsLines) :
    splitLines (failure.render indent).toList =
      (outline indent failure.path).map String.toList ++
        [] :: splitLines failure.message.toList := by
  rw [toList_render h.below, splitLines_append, splitLines_break,
    splitLines_outline hindent h]

/-- The segments' texts and the message are read back from a rendering. -/
theorem readRendering_render (hindent : '\n' ∉ indent.toList)
    (h : failure.path.FillsLines) :
    readRendering indent (failure.render indent) =
      some (failure.path.segments.map Segment.text, failure.message) := by
  have hne : (outline indent failure.path).map String.toList ≠ [] :=
    mt List.map_eq_nil_iff.mp (outline_ne_nil h.below)
  rw [readRendering, toList_render h.below,
    splitAtEmptyLine_intercalate hne (filled_outline hindent h.filled)]
  simp only [Option.bind_eq_bind, Option.bind_some, splitLines_outline hindent h,
    outdent_outline]
  simp [Function.comp_def]

/-- The rendering is laid out in these lines: they come before its first empty line,
there is one for each segment, after as many indents as there are segments above it,
and what comes after the empty line is the message. -/
structure LaidOut (failure : Failure) (indent : String) (lines : List String) :
    Prop where
  above :
    (splitLines (failure.render indent).toList).takeWhile (· ≠ []) =
      lines.map String.toList
  depth : lines.length = failure.path.length
  line : ∀ level segment, failure.path.segments[level]? = some segment →
    lines[level]? = some (String.join (List.replicate level indent) ++ segment.text)
  below : failure.render indent = "\n".intercalate (lines ++ ["", failure.message])

theorem laidOut_outline (hindent : '\n' ∉ indent.toList) (h : failure.path.FillsLines) :
    failure.LaidOut indent (outline indent failure.path) := by
  refine ⟨?above, length_outline .., fun level segment hsegment => ?line, ?below⟩
  case above =>
    have hfilled : ∀ line ∈ (outline indent failure.path).map String.toList,
        decide (line ≠ []) = true :=
      fun line hline => decide_eq_true (filled_outline hindent h.filled line hline).1
    rw [splitLines_render hindent h, List.takeWhile_append_of_pos hfilled]
    exact List.append_nil _
  case line =>
    rw [getElem?_outline, hsegment, Option.map_some]
  case below =>
    have hbreaks : "\n\n" = "\n" ++ "\n" := rfl
    rw [render_below_root h.below, hbreaks,
      String.intercalate_append_of_ne_nil (outline_ne_nil h.below)
        (List.cons_ne_nil _ _),
      String.intercalate_cons_cons, String.intercalate_singleton, String.empty_append]
    simp only [String.append_assoc]

/-- A rendering of a failure below the root whose segments fill lines is laid out in
one line for each segment, an empty line and the message, and these are read back
from it. So failures with one rendering have paths of one length that are written
alike at every depth, and one message. -/
theorem rendering_is_read_back (hindent : '\n' ∉ indent.toList) {f g : Failure}
    (hf : f.path.FillsLines) (hg : g.path.FillsLines) :
    (∃ lines, f.LaidOut indent lines) ∧
      readRendering indent (f.render indent) =
        some (f.path.segments.map Segment.text, f.message) ∧
      (f.render indent = g.render indent →
        f.path.length = g.path.length ∧
        (∀ level : Nat, (f.path.segments[level]?).map Segment.text =
          (g.path.segments[level]?).map Segment.text) ∧
        f.message = g.message) := by
  refine ⟨⟨_, laidOut_outline hindent hf⟩, readRendering_render hindent hf,
    fun hsame => ?_⟩
  have hread := readRendering_render hindent hg
  rw [← hsame, readRendering_render hindent hf, Option.some.injEq,
    Prod.mk.injEq] at hread
  obtain ⟨htexts, hmessage⟩ := hread
  refine ⟨?_, fun level => ?_, hmessage⟩
  · have hlength := congrArg List.length htexts
    rwa [List.length_map, List.length_map] at hlength
  · rw [← List.getElem?_map, htexts, List.getElem?_map]

/-- At an index, below a name that begins with the indent; the message begins with
an empty line. -/
def thirdLine : Failure where
  path := ((Path.root.field "--lines").index 3).field "width"
  kind := .missing
  message := "\nmissing\n\n"

/-- At a field that is named as the index of `thirdLine` is written. -/
def bracketedLine : Failure where
  path := ((Path.root.field "--lines").field "[ 3 ]").field "width"
  kind := .typeMismatch
  message := "\nmissing\n\n"
  expected := some "number"

theorem third_line_is_read_back :
    '\n' ∉ "--".toList ∧ thirdLine.path.FillsLines ∧ bracketedLine.path.FillsLines ∧
      thirdLine.render "--" = "--lines\n--[ 3 ]\n----width\n\n\nmissing\n\n" ∧
      thirdLine.render "--" = bracketedLine.render "--" ∧
      thirdLine.path ≠ bracketedLine.path ∧
      readRendering "--" (thirdLine.render "--") =
        some (["--lines", "[ 3 ]", "width"], "\nmissing\n\n") ∧
      (bracketedLine.path.segments[1]?).map Segment.text = some "[ 3 ]" := by
  have hindent : '\n' ∉ "--".toList := by decide
  have hthird : thirdLine.path.FillsLines := ⟨by decide, by decide⟩
  have hbracketed : bracketedLine.path.FillsLines := ⟨by decide, by decide⟩
  have hsame : thirdLine.render "--" = bracketedLine.render "--" := by decide
  obtain ⟨_, hread, halike⟩ := rendering_is_read_back hindent hthird hbracketed
  obtain ⟨_, htexts, _⟩ := halike hsame
  exact ⟨hindent, hthird, hbracketed, by decide, hsame, by decide, hread,
    (htexts 1).symm⟩

/-- An empty name leaves an empty line, and what follows it reads as the message. -/
example :
    let unnamed := Failure.mk ((Path.root.field "a").field "") .missing "b" none none
    let above := Failure.mk (Path.root.field "a") .missing "\nb" none none
    unnamed.render "" = above.render "" := by
  decide

end Failure

end JsonShape

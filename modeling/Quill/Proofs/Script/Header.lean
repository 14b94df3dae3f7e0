import Mathlib.Data.List.DropRight
import Quill.Script

/-!
# What a header tells

The name and the mode of a script are told by its header: the lines at its beginning that are blank
or comments. The first line of code ends the search for directives, so nothing behind it counts, and
in the header the first directive with a key is the one that counts.

Lines are taken as they stand between newlines here. That a carriage return in front of a newline
does not belong to the line makes no difference, because all that is read of a line is what trimming
leaves of it (`trim_stripEnding`).
-/

set_option autoImplicit false

namespace Quill

namespace Text

variable {c : Char} {cs line : List Char}

/-! ## Trimming -/

theorem trim_cons_blank (hc : isBlank c = true) (cs : List Char) : trim (c :: cs) = trim cs := by
  rw [trim, trimStart, List.dropWhile_cons_of_pos hc]
  rfl

theorem trim_cons_of_not_blank (hc : isBlank c = false) (cs : List Char) :
    trim (c :: cs) = (c :: cs).rdropWhile isBlank := by
  rw [trim, trimStart, List.dropWhile_cons_of_neg (by simp [hc])]
  rfl

theorem trim_append_blank (hc : isBlank c = true) (cs : List Char) :
    trim (cs ++ [c]) = trim cs := by
  induction cs with
  | nil => exact trim_cons_blank hc []
  | cons d cs ih =>
    cases hd : isBlank d with
    | true => rw [List.cons_append, trim_cons_blank hd, trim_cons_blank hd, ih]
    | false =>
      rw [List.cons_append, trim_cons_of_not_blank hd, trim_cons_of_not_blank hd,
        ← List.cons_append, List.rdropWhile_concat_pos isBlank _ _ hc]

/-- A trimmed text does not end in a blank. -/
theorem getLast_of_trim_eq (hcs : trim cs = cs) (hne : cs ≠ []) :
    ¬isBlank (cs.getLast hne) = true := by
  have hend : (trimStart cs).rdropWhile isBlank = cs := hcs
  have hne' : (trimStart cs).rdropWhile isBlank ≠ [] := by rwa [hend]
  have hlast := List.rdropWhile_last_not isBlank (trimStart cs) hne'
  simpa only [hend] using hlast

/-- Nothing is trimmed between a character that is not blank and a trimmed text. -/
theorem trim_append_of_trimmed (hc : isBlank c = false) (front : List Char) (hcs : trim cs = cs)
    (hne : cs ≠ []) : trim (c :: (front ++ cs)) = c :: (front ++ cs) := by
  rw [trim_cons_of_not_blank hc, List.rdropWhile_eq_self_iff]
  intro hne'
  rw [List.getLast_cons (by simp [hne]), List.getLast_append_of_ne_nil _ hne]
  exact getLast_of_trim_eq hcs hne

/-! ## Lines -/

theorem rawLines_append (hline : '\n' ∉ line) (rest : List Char) :
    rawLines (line ++ '\n' :: rest) = (line ++ ['\n']) :: rawLines rest := by
  induction line with
  | nil => simp [rawLines]
  | cons c line ih =>
    rw [List.mem_cons, not_or] at hline
    have hc : (c == '\n') = false := beq_false_of_ne (Ne.symm hline.1)
    rw [List.cons_append, rawLines, hc, if_neg Bool.false_ne_true, ih hline.2]
    rfl

theorem rawLines_last (hline : '\n' ∉ line) (hne : line ≠ []) : rawLines line = [line] := by
  induction line with
  | nil => exact absurd rfl hne
  | cons c line ih =>
    rw [List.mem_cons, not_or] at hline
    have hc : (c == '\n') = false := beq_false_of_ne (Ne.symm hline.1)
    rw [rawLines, hc, if_neg Bool.false_ne_true]
    cases line with
    | nil => rfl
    | cons d line =>
      rw [ih hline.2 (List.cons_ne_nil d line)]
      rfl

/-- The carriage return that goes with a newline is blank. -/
theorem trim_stripEnding (line : List Char) : trim (stripEnding (line ++ ['\n'])) = trim line := by
  rw [stripEnding, if_pos List.getLast?_concat, List.dropLast_concat]
  dsimp only
  split
  · next hreturn =>
    obtain ⟨body, rfl⟩ := List.getLast?_eq_some_iff.mp hreturn
    rw [List.dropLast_concat, trim_append_blank rfl]
  · rfl

theorem lines_cons (hline : '\n' ∉ line) (rest : List Char) :
    lines (line ++ '\n' :: rest) = stripEnding (line ++ ['\n']) :: lines rest := by
  rw [lines, rawLines_append hline, List.map_cons, lines]

/-- A line ends at a newline or with the text. -/
theorem exists_lines_eq (hline : '\n' ∉ line) (hne : line ≠ []) {rest : List Char}
    (hrest : ∀ c ∈ rest.head?, c = '\n') :
    ∃ first more, lines (line ++ rest) = first :: more ∧ trim first = trim line := by
  cases rest with
  | nil =>
    have hstrip : stripEnding line = line := if_neg fun h => hline (List.mem_of_getLast? h)
    refine ⟨line, [], ?_, rfl⟩
    rw [List.append_nil, lines, rawLines_last hline hne, List.map_singleton, hstrip]
  | cons c rest =>
    obtain rfl := hrest c rfl
    exact ⟨_, _, lines_cons hline rest, trim_stripEnding line⟩

/-! ## Beginnings -/

theorem after?_append (front cs : List Char) : after? front (front ++ cs) = some cs := by
  induction front with
  | nil => rfl
  | cons c front ih => simp [after?, ih]

theorem after?_eq_some_iff {front rest : List Char} :
    after? front cs = some rest ↔ cs = front ++ rest := by
  refine ⟨fun h => ?_, fun h => h ▸ after?_append front rest⟩
  fun_induction after? front cs with
  | case1 cs => exact Option.some.inj h
  | case2 => cases h
  | case3 b bs c cs hc ih => rw [← eq_of_beq hc, ih h, List.cons_append]
  | case4 => cases h

end Text

open Text

/-! ## The lines of a header -/

/-- The line is blank, or a comment once it is trimmed. -/
def IsHeaderLine (line : List Char) : Prop := trim line = [] ∨ ['/', '/'] <+: trim line

instance (line : List Char) : Decidable (IsHeaderLine line) :=
  inferInstanceAs (Decidable (_ ∨ _))

/-- Lines that are blank or comments, each with its newline. -/
inductive Header : List Char → Prop
  | nil : Header []
  | cons {line more : List Char} :
      '\n' ∉ line → IsHeaderLine line → Header more → Header (line ++ '\n' :: more)

section Search

variable {key : String} {line comment : List Char}

theorem findDirective?_blank (hline : trim line = []) (rest : List (List Char)) :
    findDirective? key (line :: rest) = findDirective? key rest := by
  rw [findDirective?, hline]
  rfl

theorem findDirective?_comment (hline : trim line = '/' :: '/' :: comment)
    (rest : List (List Char)) :
    findDirective? key (line :: rest) =
      (directiveValue? key comment).or (findDirective? key rest) := by
  have hcomment : after? ['/', '/'] ('/' :: '/' :: comment) = some comment := after?_append _ _
  rw [findDirective?, hline]
  simp only [List.isEmpty_cons, Bool.false_eq_true, if_false, hcomment]
  cases directiveValue? key comment <;> rfl

/-- A line of code ends the search. -/
theorem findDirective?_code (hline : ¬IsHeaderLine line) (rest : List (List Char)) :
    findDirective? key (line :: rest) = none := by
  rw [IsHeaderLine, not_or] at hline
  have hcomment : after? ['/', '/'] (trim line) = none := by
    rw [Option.eq_none_iff_forall_ne_some]
    intro comment h
    exact hline.2 ⟨comment, (after?_eq_some_iff.mp h).symm⟩
  rw [findDirective?]
  simp only [List.isEmpty_iff, hline.1, if_false, hcomment]

end Search

/-- Of a header and what comes behind it, only the header is searched. -/
theorem findDirective?_header {header first rest : List Char} (key : String)
    (hheader : Header header) (hfirst : '\n' ∉ first) (hcode : ¬IsHeaderLine first)
    (hrest : ∀ c ∈ rest.head?, c = '\n') :
    findDirective? key (lines (header ++ (first ++ rest))) = findDirective? key (lines header) := by
  induction hheader with
  | nil =>
    have hne : first ≠ [] := by
      rintro rfl
      exact hcode (.inl rfl)
    obtain ⟨line, more, hlines, htrim⟩ := exists_lines_eq hfirst hne hrest
    rw [IsHeaderLine, ← htrim] at hcode
    rw [List.nil_append, hlines, findDirective?_code hcode]
    rfl
  | @cons line more hline hhead _ ih =>
    have hassoc : line ++ '\n' :: more ++ (first ++ rest) =
        line ++ '\n' :: (more ++ (first ++ rest)) := by simp
    rw [hassoc, lines_cons hline, lines_cons hline]
    rcases hhead with hblank | ⟨comment, hcomment⟩
    · have htrim := (trim_stripEnding line).trans hblank
      rw [findDirective?_blank htrim, findDirective?_blank htrim, ih]
    · have htrim := (trim_stripEnding line).trans hcomment.symm
      rw [findDirective?_comment htrim, findDirective?_comment htrim, ih]

/-! ## Directives that are written out -/

/-- The comment that tells a value under a key, behind its slashes. -/
def directiveComment (key : String) (value : List Char) : List Char :=
  ' ' :: '@' :: (key.toList ++ (':' :: ' ' :: value))

/-- What is written under a key is found under it. -/
theorem directiveValue?_comment (key : String) {value : List Char} (hvalue : trim value = value) :
    directiveValue? key (directiveComment key value) = some value := by
  have hmark : after? ['@'] (trimStart (directiveComment key value)) =
      some (key.toList ++ (':' :: ' ' :: value)) := by
    simp [directiveComment, trimStart, isBlank, after?]
  have hcolon : after? [':'] (trimStart (':' :: ' ' :: value)) = some (' ' :: value) := by
    simp [trimStart, isBlank, after?]
  rw [directiveValue?, hmark]
  simp only [Option.bind_eq_bind, Option.bind_some, after?_append, hcolon, Option.pure_def,
    trim_cons_blank (c := ' ') rfl, hvalue]

/-- A mode is no name. -/
theorem directiveValue?_mode (value : List Char) :
    directiveValue? "name" (directiveComment "mode" value) = none := by
  simp [directiveValue?, directiveComment, trimStart, isBlank, after?]

/-- A line with a directive, in front of the other lines. -/
theorem findDirective?_line (sought : String) {key : String} {value : List Char}
    (hvalue : trim value = value) (hne : value ≠ [])
    (hline : '\n' ∉ '/' :: '/' :: directiveComment key value) (rest : List Char) :
    findDirective? sought (lines ('/' :: '/' :: directiveComment key value ++ '\n' :: rest)) =
      (directiveValue? sought (directiveComment key value)).or
        (findDirective? sought (lines rest)) := by
  have htrim : trim ('/' :: '/' :: directiveComment key value) =
      '/' :: '/' :: directiveComment key value := by
    have h := trim_append_of_trimmed (c := '/') rfl
      ('/' :: ' ' :: '@' :: (key.toList ++ [':', ' '])) hvalue hne
    simpa [directiveComment] using h
  rw [lines_cons hline, findDirective?_comment ((trim_stripEnding _).trans htrim)]

namespace ScriptMode

theorem trim_label (mode : ScriptMode) : trim mode.label.toList = mode.label.toList := by
  cases mode <;> decide

theorem label_ne_nil (mode : ScriptMode) : mode.label.toList ≠ [] := by
  cases mode <;> decide

theorem newline_not_mem_label (mode : ScriptMode) : '\n' ∉ mode.label.toList := by
  cases mode <;> decide

theorem ofText_label (mode : ScriptMode) : ofText mode.label.toList = mode := by
  cases mode <;> decide

end ScriptMode

theorem toList_written (mode : ScriptMode) (name rest : String) :
    ("// @mode: " ++ mode.label ++ "\n// @name: " ++ name ++ "\n" ++ rest).toList =
      '/' :: '/' :: directiveComment "mode" mode.label.toList ++ '\n' ::
        ('/' :: '/' :: directiveComment "name" name.toList ++ '\n' :: rest.toList) := by
  simp [directiveComment]

/-- Both directives are found where they are written at the beginning of a source. -/
theorem directive?_written (mode : ScriptMode) {name : String} (rest : String) {source : String}
    (hsource : source = "// @mode: " ++ mode.label ++ "\n// @name: " ++ name ++ "\n" ++ rest)
    (hname : trim name.toList = name.toList) (hne : name.toList ≠ []) (hline : '\n' ∉ name.toList) :
    directive? "mode" source = some mode.label.toList ∧
      directive? "name" source = some name.toList := by
  have hmode : '\n' ∉ '/' :: '/' :: directiveComment "mode" mode.label.toList := by
    simp [directiveComment, mode.newline_not_mem_label]
  have hnameLine : '\n' ∉ '/' :: '/' :: directiveComment "name" name.toList := by
    simp [directiveComment, hline]
  simp only [directive?, hsource, toList_written,
    findDirective?_line _ mode.trim_label mode.label_ne_nil hmode,
    findDirective?_line _ hname hne hnameLine, directiveValue?_comment _ mode.trim_label,
    directiveValue?_comment _ hname, directiveValue?_mode, Option.some_or, Option.none_or, and_self]

/-- The name and the mode of a script depend on its header alone, and a header that tells them gives
them back, whatever is told behind it. -/
theorem script_told_by_header :
    (∀ header first rest : List Char, Header header → '\n' ∉ first → ¬IsHeaderLine first →
      (∀ c ∈ rest.head?, c = '\n') →
      let whole := Script.ofSource (String.ofList (header ++ (first ++ rest)))
      let alone := Script.ofSource (String.ofList header)
      whole.name = alone.name ∧ whole.mode = alone.mode) ∧
    (∀ (mode : ScriptMode) (name rest : String), name ≠ "" → trim name.toList = name.toList →
      '\n' ∉ name.toList →
      let script := Script.ofSource
        ("// @mode: " ++ mode.label ++ "\n// @name: " ++ name ++ "\n" ++ rest)
      script.name = name ∧ script.mode = mode) := by
  constructor
  · intro header first rest hheader hfirst hcode hrest
    have hsearch : ∀ key, directive? key (String.ofList (header ++ (first ++ rest))) =
        directive? key (String.ofList header) := by
      intro key
      rw [directive?, directive?, String.toList_ofList, String.toList_ofList,
        findDirective?_header key hheader hfirst hcode hrest]
    refine ⟨?_, ?_⟩
    · simp only [Script.ofSource, Script.nameOf, hsearch]
    · simp only [Script.ofSource, Script.modeOf, hsearch]
  · intro mode name rest hne hname hline
    have hchars : name.toList ≠ [] := by simpa using hne
    obtain ⟨hmode, hnames⟩ := directive?_written mode rest rfl hname hchars hline
    refine ⟨?_, ?_⟩
    · obtain ⟨c, cs, hcs⟩ := List.exists_cons_of_ne_nil hchars
      simp only [Script.ofSource, Script.nameOf, hnames, hcs]
      rw [← hcs, String.ofList_toList]
    · simp only [Script.ofSource, Script.modeOf, hmode, ScriptMode.ofText_label]

/-- A blank line between two comments, the first with a key that begins as another one does. -/
def modelHeader : List Char :=
  "\t//@model: ir\r".toList ++ '\n' :: ([' '] ++ '\n' :: ("//@mode :Both".toList ++ '\n' :: []))

theorem modelHeader_header : Header modelHeader :=
  .cons (by decide) (.inr (by decide)) (.cons (by decide) (.inl (by decide))
    (.cons (by decide) (.inr (by decide)) .nil))

/-- What follows would tell another mode and another name. -/
theorem script_told_by_modelHeader :
    (Header modelHeader ∧ '\n' ∉ "log(1)".toList ∧ ¬IsHeaderLine "log(1)".toList ∧
      (∀ c ∈ "\n// @mode: ir\n// @name: Late".toList.head?, c = '\n') ∧
      let whole := Script.ofSource
        (String.ofList (modelHeader ++ ("log(1)".toList ++ "\n// @mode: ir\n// @name: Late".toList)))
      let alone := Script.ofSource (String.ofList modelHeader)
      whole.name = alone.name ∧ whole.mode = alone.mode) ∧
    (": @name: Fold" ≠ "" ∧ trim ": @name: Fold".toList = ": @name: Fold".toList ∧
      '\n' ∉ ": @name: Fold".toList ∧
      let script := Script.ofSource ("// @mode: " ++ ScriptMode.ir.label ++ "\n// @name: " ++
        ": @name: Fold" ++ "\n" ++ "// @mode: both\n// @name: Late")
      script.name = ": @name: Fold" ∧ script.mode = .ir) :=
  have hcode : '\n' ∉ "log(1)".toList := by decide
  have hstop : ¬IsHeaderLine "log(1)".toList := by decide
  have hrest : ∀ c ∈ "\n// @mode: ir\n// @name: Late".toList.head?, c = '\n' := by simp
  have htrim : trim ": @name: Fold".toList = ": @name: Fold".toList := by decide
  have hline : '\n' ∉ ": @name: Fold".toList := by decide
  ⟨⟨modelHeader_header, hcode, hstop, hrest,
      script_told_by_header.1 modelHeader _ _ modelHeader_header hcode hstop hrest⟩,
    by decide, htrim, hline,
    script_told_by_header.2 .ir ": @name: Fold" _ (by decide) htrim hline⟩

end Quill

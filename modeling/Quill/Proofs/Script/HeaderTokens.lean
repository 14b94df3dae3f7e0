import Quill.Proofs.Script.Header
import Quill.Proofs.Token.Words

/-!
# What the lexer makes of a header

The header of a script is read twice. Its directives are found by trimming lines, and blank is there
what Unicode has as white space; to the lexer only four of these characters are white space. So the
lines of a header are comments to the lexer except for the blanks in front of them: each that it
does not know is a stray character of its own, with an error token and a diagnostic. Otherwise the
header leaves no token, and what is behind it is read as if it stood alone, as many lines further
down as the header has.

`header_tokens` says so for every source, with all that is reported in a header told from the blanks
in front of its lines (`strays`).
-/

set_option autoImplicit false

namespace Quill

open Slice Text

/-! ## Blanks in front -/

theorem unprinted_of_isBlank {c : Char} (h : isBlank c = true) : Unprinted c := by
  simp only [isBlank, Bool.or_eq_true, Bool.and_eq_true, beq_iff_eq, decide_eq_true_eq] at h
  unfold Unprinted
  omega

/-- The characters of a text that are no white space to the lexer, with their places if the text
stands at a place. -/
def strayBlanks (p : Position) : List Char → List (Char × Position)
  | [] => []
  | c :: cs =>
    if isSpace c then strayBlanks (p.step c) cs else (c, p) :: strayBlanks (p.step c) cs

theorem strayBlanks_append (p : Position) (cs ds : List Char) :
    strayBlanks p (cs ++ ds) = strayBlanks p cs ++ strayBlanks (p.advance cs) ds := by
  induction cs generalizing p with
  | nil => rfl
  | cons c cs ih =>
    rw [List.cons_append, strayBlanks, strayBlanks, ih, Position.advance_cons]
    split
    · rfl
    · rfl

theorem strayBlanks_eq_nil_iff (p : Position) (cs : List Char) :
    strayBlanks p cs = [] ↔ ∀ c ∈ cs, isSpace c = true := by
  induction cs generalizing p with
  | nil => simp [strayBlanks]
  | cons c cs ih =>
    rw [strayBlanks, List.forall_mem_cons]
    split
    · next hc => simp [hc, ih]
    · next hc => simp [hc]

theorem of_mem_strayBlanks {p : Position} {blanks : List Char}
    (h : ∀ c ∈ blanks, isBlank c = true) {s : Char × Position} (hs : s ∈ strayBlanks p blanks) :
    isBlank s.1 = true ∧ isSpace s.1 = false := by
  induction blanks generalizing p with
  | nil => cases hs
  | cons c blanks ih =>
    rw [List.forall_mem_cons] at h
    rw [strayBlanks] at hs
    split at hs
    · exact ih h.2 hs
    · next hc =>
      rcases List.mem_cons.mp hs with rfl | hs
      · exact ⟨h.1, Bool.not_eq_true _ ▸ hc⟩
      · exact ih h.2 hs

/-- A piece of one character. -/
def Piece.single (stray : Char × Position) : Piece := ⟨[stray.1], stray.2⟩

/-- Blanks in front of a text leave those of them as words that are no white space. -/
theorem words_blanks (p : Position) {blanks : List Char} (h : ∀ c ∈ blanks, isBlank c = true)
    (cs : List Char) :
    Piece.words p (blanks ++ cs) =
      (strayBlanks p blanks).map Piece.single ++ Piece.words (p.advance blanks) cs := by
  induction blanks generalizing p with
  | nil => rfl
  | cons c blanks ih =>
    rw [List.forall_mem_cons] at h
    rw [List.cons_append, strayBlanks, Position.advance_cons]
    cases hc : isSpace c with
    | true => rw [Piece.words_space p hc, ih _ h.2, if_pos rfl]
    | false =>
      rw [(unprinted_of_isBlank h.1).words_cons hc, ih _ h.2, if_neg Bool.false_ne_true]
      rfl

/-! ## The lines of a header -/

/-- The blanks that a line begins with. -/
def indentation (line : List Char) : List Char := line.takeWhile isBlank

theorem isBlank_of_mem_indentation {line : List Char} : ∀ c ∈ indentation line, isBlank c = true :=
  fun _ hc => List.mem_takeWhile_imp hc

/-- Behind its indentation a line of a header is empty or a comment. -/
theorem IsHeaderLine.exists_eq {line : List Char} (h : IsHeaderLine line) :
    indentation line = line ∨ ∃ text, line = indentation line ++ '/' :: '/' :: text := by
  have hsplit : indentation line ++ trimStart line = line := List.takeWhile_append_dropWhile
  rcases h with hblank | ⟨text, htext⟩
  · have hall : ∀ c ∈ trimStart line, isBlank c = true :=
      List.rdropWhile_eq_nil_iff.mp hblank
    have hnil : trimStart line = [] := by
      cases hstart : trimStart line with
      | nil => rfl
      | cons c cs =>
        have hhead := List.head?_dropWhile_not isBlank line
        have hstart' : line.dropWhile isBlank = c :: cs := hstart
        rw [hstart'] at hhead
        simp [hall c (by simp [hstart])] at hhead
    rw [hnil, List.append_nil] at hsplit
    exact .inl hsplit
  · obtain ⟨rest, hrest⟩ : trim line <+: trimStart line :=
      List.rdropWhile_prefix isBlank (trimStart line)
    have hcomment : trimStart line = '/' :: '/' :: (text ++ rest) := by
      rw [← hrest, ← htext]
      rfl
    exact .inr ⟨text ++ rest, by rw [← hcomment, hsplit]⟩

/-- Of a line of a header the lexer reads the blanks that it does not know, and nothing else. -/
theorem words_headerLine (p : Position) {line rest : List Char} (hhead : IsHeaderLine line)
    (hline : '\n' ∉ line) (hrest : ∀ c ∈ rest.head?, c = '\n') :
    Piece.words p (line ++ rest) =
      (strayBlanks p (indentation line)).map Piece.single ++ Piece.words (p.advance line) rest := by
  have hblanks : ∀ c ∈ indentation line, isBlank c = true := isBlank_of_mem_indentation
  rcases hhead.exists_eq with hindented | ⟨text, hcomment⟩
  · rw [hindented] at hblanks ⊢
    exact words_blanks p hblanks rest
  · generalize indentation line = blanks at hblanks hcomment ⊢
    subst hcomment
    have htext : '\n' ∉ text := fun h => hline (by simp [h])
    rw [List.append_assoc, words_blanks p hblanks, List.cons_append, List.cons_append,
      Piece.words_comment _ htext hrest, Position.advance_append]

/-! ## Sources by their lines -/

/-- A property of texts goes by their lines, of which the last need not have a newline. -/
theorem lines_induction {motive : List Char → Prop} (nil : motive [])
    (last : ∀ line, '\n' ∉ line → line ≠ [] → motive line)
    (cons : ∀ line rest, '\n' ∉ line → motive rest → motive (line ++ '\n' :: rest))
    (source : List Char) : motive source := by
  induction hn : source.length using Nat.strongRecOn generalizing source with
  | ind n ih =>
    by_cases hnewline : '\n' ∈ source
    · obtain ⟨line, rest, hsource, hline⟩ := List.eq_append_cons_of_mem hnewline
      subst hsource
      refine cons line rest hline (ih rest.length ?_ rest rfl)
      rw [← hn, List.length_append, List.length_cons]
      omega
    · by_cases hempty : source = []
      · exact hempty ▸ nil
      · exact last source hnewline hempty

namespace Script

/-- The lines that a source begins with, as far as they are blank or comments. Each has its newline,
if there is one. -/
def headerLines (source : List Char) : List (List Char) :=
  (rawLines source).takeWhile fun line => IsHeaderLine line

/-- The header of a source. -/
def header (source : List Char) : List Char := (headerLines source).flatten

/-- What is behind the header of a source. -/
def body (source : List Char) : List Char :=
  ((rawLines source).dropWhile fun line => IsHeaderLine line).flatten

variable {line : List Char}

theorem isHeaderLine_newline (line : List Char) :
    IsHeaderLine (line ++ ['\n']) ↔ IsHeaderLine line := by
  rw [IsHeaderLine, IsHeaderLine, trim_append_blank rfl]

theorem flatten_rawLines (source : List Char) : (rawLines source).flatten = source := by
  induction source using lines_induction with
  | nil => rfl
  | last line hline hne => rw [rawLines_last hline hne, List.flatten_singleton]
  | cons line rest hline ih => simp [rawLines_append hline, ih]

theorem header_append_body (source : List Char) : header source ++ body source = source := by
  rw [header, headerLines, body, ← List.flatten_append, List.takeWhile_append_dropWhile,
    flatten_rawLines]

/-! A line of a header in front of a source, and one that is the source. -/

section HeaderLine

variable (hline : '\n' ∉ line) (hhead : IsHeaderLine line)

include hline hhead

theorem headerLines_cons (rest : List Char) :
    headerLines (line ++ '\n' :: rest) = (line ++ ['\n']) :: headerLines rest := by
  have hraw := (isHeaderLine_newline line).mpr hhead
  simp [headerLines, rawLines_append hline, hraw]

theorem header_cons (rest : List Char) :
    header (line ++ '\n' :: rest) = line ++ '\n' :: header rest := by
  simp [header, headerLines_cons hline hhead]

theorem body_cons (rest : List Char) : body (line ++ '\n' :: rest) = body rest := by
  have hraw := (isHeaderLine_newline line).mpr hhead
  simp [body, rawLines_append hline, hraw]

theorem headerLines_last (hne : line ≠ []) : headerLines line = [line] := by
  simp [headerLines, rawLines_last hline hne, hhead]

theorem header_last (hne : line ≠ []) : header line = line := by
  simp [header, headerLines_last hline hhead hne]

theorem body_last (hne : line ≠ []) : body line = [] := by
  simp [body, rawLines_last hline hne, hhead]

end HeaderLine

theorem body_of_headerLines_eq_nil {source : List Char} (h : headerLines source = []) :
    body source = source := by
  have hsplit := header_append_body source
  rwa [header, h] at hsplit

/-- A property of sources goes by the lines of their headers. -/
theorem header_induction {motive : List Char → Prop}
    (code : ∀ source, headerLines source = [] → motive source)
    (last : ∀ line, '\n' ∉ line → line ≠ [] → IsHeaderLine line → motive line)
    (cons : ∀ line rest, '\n' ∉ line → IsHeaderLine line → motive rest →
      motive (line ++ '\n' :: rest))
    (source : List Char) : motive source := by
  induction source using lines_induction with
  | nil => exact code [] rfl
  | last line hline hne =>
    by_cases hhead : IsHeaderLine line
    · exact last line hline hne hhead
    · exact code line (by simp [headerLines, rawLines_last hline hne, hhead])
  | cons line rest hline ih =>
    by_cases hhead : IsHeaderLine line
    · exact cons line rest hline hhead ih
    · have hraw := mt (isHeaderLine_newline line).mp hhead
      exact code _ (by simp [headerLines, rawLines_append hline, hraw])

/-! ## The header of a header -/

theorem rawLines_header (source : List Char) : rawLines (header source) = headerLines source := by
  induction source using header_induction with
  | code source h => rw [header, h]; rfl
  | last line hline hne hhead =>
    rw [header_last hline hhead hne, rawLines_last hline hne, headerLines_last hline hhead hne]
  | cons line rest hline hhead ih =>
    rw [header_cons hline hhead, rawLines_append hline, ih, headerLines_cons hline hhead]

theorem isHeaderLine_of_mem {source : List Char} :
    ∀ line ∈ headerLines source, IsHeaderLine line := by
  intro line hline
  have hraw := List.mem_takeWhile_imp (p := fun line => IsHeaderLine line) hline
  exact of_decide_eq_true hraw

theorem headerLines_header (source : List Char) :
    headerLines (header source) = headerLines source := by
  rw [headerLines, rawLines_header]
  exact List.takeWhile_eq_self_iff.mpr fun line hline =>
    decide_eq_true (isHeaderLine_of_mem line hline)

theorem body_header (source : List Char) : body (header source) = [] := by
  have hdrop : (headerLines source).dropWhile (fun line => IsHeaderLine line) = [] :=
    List.dropWhile_eq_nil_iff.mpr fun line hline => decide_eq_true (isHeaderLine_of_mem line hline)
  rw [body, rawLines_header, hdrop]
  rfl

/-! ## What is told by a header -/

theorem trim_stripEnding_raw (raw : List Char) : trim (stripEnding raw) = trim raw := by
  by_cases hnewline : raw.getLast? = some '\n'
  · obtain ⟨line, rfl⟩ := List.getLast?_eq_some_iff.mp hnewline
    rw [trim_stripEnding, trim_append_blank rfl]
  · rw [stripEnding, if_neg hnewline]

/-- The directives of a source are searched in its header. -/
theorem directive?_header (key : String) (source : List Char) :
    directive? key (String.ofList source) = directive? key (String.ofList (header source)) := by
  simp only [directive?, String.toList_ofList, lines, rawLines_header, headerLines]
  induction rawLines source with
  | nil => rfl
  | cons raw more ih =>
    have htrim := trim_stripEnding_raw raw
    by_cases hhead : IsHeaderLine raw
    · rw [List.takeWhile_cons_of_pos (by simpa using hhead), List.map_cons, List.map_cons]
      rcases hhead with hblank | ⟨comment, hcomment⟩
      · have hstripped := htrim.trans hblank
        rw [findDirective?_blank hstripped, findDirective?_blank hstripped, ih]
      · have hstripped := htrim.trans hcomment.symm
        rw [findDirective?_comment hstripped, findDirective?_comment hstripped, ih]
    · have hstripped : ¬IsHeaderLine (stripEnding raw) := by rwa [IsHeaderLine, htrim]
      rw [List.takeWhile_cons_of_neg (by simpa using hhead), List.map_cons,
        findDirective?_code hstripped]
      rfl

/-! ## What the lexer reads of a header -/

/-- A text without newlines stays on its line. -/
theorem line_advance {text : List Char} (h : '\n' ∉ text) (p : Position) :
    (p.advance text).line = p.line := by
  induction text generalizing p with
  | nil => rfl
  | cons c text ih =>
    rw [List.mem_cons, not_or] at h
    rw [Position.advance_cons, ih h.2, Position.step, if_neg (by simpa using Ne.symm h.1)]

/-- The blanks in front of the lines of a header that are no white space to the lexer, with their
places if the first line has the given number. -/
def strays (n : Nat) (source : List Char) : List (Char × Position) :=
  ((headerLines source).zipIdx n).flatMap fun line => strayBlanks ⟨line.2, 1⟩ (indentation line.1)

theorem strayBlanks_newline (p : Position) (line : List Char) :
    strayBlanks p (indentation (line ++ ['\n'])) = strayBlanks p (indentation line) := by
  unfold indentation
  rw [List.takeWhile_append]
  split
  · next hlength =>
    have hall : line.takeWhile isBlank = line :=
      (List.takeWhile_prefix isBlank).eq_of_length hlength
    rw [hall, strayBlanks_append]
    exact List.append_nil _
  · rfl

theorem strays_cons (n : Nat) {line : List Char} (hline : '\n' ∉ line) (hhead : IsHeaderLine line)
    (rest : List Char) :
    strays n (line ++ '\n' :: rest) =
      strayBlanks ⟨n, 1⟩ (indentation line) ++ strays (n + 1) rest := by
  rw [strays, headerLines_cons hline hhead, List.zipIdx_cons, List.flatMap_cons,
    strayBlanks_newline]
  rfl

theorem step_newline (n : Nat) {line : List Char} (hline : '\n' ∉ line) :
    ((⟨n, 1⟩ : Position).advance line).step '\n' = ⟨n + 1, 1⟩ := by
  rw [Position.step, if_pos (beq_self_eq_true _), line_advance hline]

/-- Of a header the lexer reads the blanks that it does not know, and nothing else. -/
theorem words_header (n : Nat) (source : List Char) :
    Piece.words ⟨n, 1⟩ source = (strays n source).map Piece.single ++
      Piece.words ((⟨n, 1⟩ : Position).advance (header source)) (body source) := by
  induction source using header_induction generalizing n with
  | code source h =>
    rw [body_of_headerLines_eq_nil h, strays, header, h]
    rfl
  | last line hline hne hhead =>
    have hwords : Piece.words ⟨n, 1⟩ (line ++ []) = _ :=
      words_headerLine ⟨n, 1⟩ hhead hline nofun
    rw [List.append_nil] at hwords
    rw [hwords, strays, headerLines_last hline hhead hne, header_last hline hhead hne,
      body_last hline hhead hne]
    simp
  | cons line rest hline hhead ih =>
    have hwords : Piece.words ⟨n, 1⟩ (line ++ '\n' :: rest) = _ :=
      words_headerLine ⟨n, 1⟩ hhead hline (by simp)
    rw [hwords, Piece.words_space _ rfl, step_newline n hline, ih, strays_cons n hline hhead,
      header_cons hline hhead, body_cons hline hhead, Position.advance_append,
      Position.advance_cons, step_newline n hline, List.map_append, List.append_assoc]

/-- What is behind a header stands as many lines further down as the header has. -/
theorem advance_header (n : Nat) {source : List Char} (h : body source ≠ []) :
    (⟨n, 1⟩ : Position).advance (header source) = ⟨n + (headerLines source).length, 1⟩ := by
  induction source using header_induction generalizing n with
  | code source hcode =>
    rw [header, hcode]
    rfl
  | last line hline hne hhead => exact absurd (body_last hline hhead hne) h
  | cons line rest hline hhead ih =>
    rw [body_cons hline hhead] at h
    rw [header_cons hline hhead, Position.advance_append, Position.advance_cons,
      step_newline n hline, ih (n + 1) h, headerLines_cons hline hhead, List.length_cons,
      Nat.add_right_comm]
    rfl

theorem strays_eq_nil_iff (n : Nat) (source : List Char) :
    strays n source = [] ↔
      ∀ line ∈ headerLines source, ∀ c ∈ indentation line, isSpace c = true := by
  simp only [strays, List.flatMap_eq_nil_iff, strayBlanks_eq_nil_iff]
  constructor
  · intro h line hline
    rw [← List.zipIdx_map_fst n (headerLines source), List.mem_map] at hline
    obtain ⟨l, hl, rfl⟩ := hline
    exact h l hl
  · intro h line hline
    exact h line.1 (List.fst_mem_of_mem_zipIdx hline)

/-- What is said of a stray character. -/
def strayReport (stray : Char × Position) : Diagnostic := ⟨.strayCharacter stray.1, stray.2⟩

/-- All that is said of a header. -/
def headerReports (source : List Char) : List Diagnostic := (strays 1 source).map strayReport

theorem lexeme_of_mem_strays {n : Nat} {source : List Char} :
    ∀ s ∈ strays n source, (Piece.single s).lexeme = .strayCharacter s.1 := by
  intro s hs
  obtain ⟨line, -, hs⟩ := List.mem_flatMap.mp hs
  obtain ⟨hblank, hspace⟩ := of_mem_strayBlanks isBlank_of_mem_indentation hs
  exact (unprinted_of_isBlank hblank).ofSlice_eq hspace

theorem filterMap_strays (source : List Char) :
    ((strays 1 source).map Piece.single).filterMap Piece.token? =
        (headerReports source).map Diagnostic.token ∧
      ((strays 1 source).map Piece.single).filterMap Piece.diagnostic? = headerReports source := by
  constructor
  · rw [headerReports, List.filterMap_map, List.map_map, ← List.filterMap_eq_map]
    refine List.filterMap_congr fun s hs => ?_
    have hlexeme := lexeme_of_mem_strays s hs
    simp only [Function.comp, Piece.token?, Piece.fault?, hlexeme]
    rfl
  · rw [headerReports, List.filterMap_map, ← List.filterMap_eq_map]
    refine List.filterMap_congr fun s hs => ?_
    have hlexeme := lexeme_of_mem_strays s hs
    simp only [Function.comp, Piece.diagnostic?, Piece.fault?, hlexeme]
    rfl

/-- What is read of a header by itself. -/
theorem tokenize_header (source : List Char) :
    tokenize (String.ofList (header source)) =
      { tokens := (headerReports source).map Diagnostic.token ++
          [⟨.eof, "", .behind (header source)⟩]
        diagnostics := headerReports source } := by
  have hwords := words_header 1 (header source)
  rw [body_header, Piece.words_nil, List.append_nil, strays, headerLines_header, ← strays] at hwords
  have hwords : Piece.words .start (header source) = (strays 1 source).map Piece.single := hwords
  obtain ⟨htokens, hdiagnostics⟩ := filterMap_strays source
  rw [tokenize_eq, hwords, htokens, hdiagnostics, Position.start_advance]

/-- What is read of a source with something behind its header. -/
theorem tokenize_behind_header {source : List Char} (h : body source ≠ []) :
    tokenize (String.ofList source) = (tokenize (String.ofList (body source))).below
      (headerReports source) (headerLines source).length := by
  generalize hn : (headerLines source).length = n
  have hbegin : Position.start.advance (header source) = Position.start.down n :=
    hn ▸ advance_header 1 h
  have hend : Position.start.advance source =
      (Position.start.advance (body source)).down n := by
    rw [← header_append_body source, Position.advance_append, hbegin, Position.advance_down,
      header_append_body]
  have hwords : Piece.words .start source = (strays 1 source).map Piece.single ++
      (Piece.words .start (body source)).map (Piece.down n) := by
    rw [← Piece.words_down, ← hbegin]
    exact words_header 1 source
  obtain ⟨htokens, hdiagnostics⟩ := filterMap_strays source
  have heof (p : Position) : Token.down n ⟨.eof, "", p⟩ = ⟨.eof, "", p.down n⟩ :=
    Token.down_of_ne (t := ⟨.eof, "", p⟩) nofun n
  rw [tokenize_eq, tokenize_eq, hwords, hend]
  simp only [Lexed.below, List.filterMap_append, htokens, hdiagnostics, List.map_append,
    List.append_assoc, List.map_filterMap, List.filterMap_map, Function.comp_def,
    Piece.token?_down, Piece.diagnostic?_down, List.map_singleton, heof]

/-- The header of a source is comments to the lexer except for the blanks in front of its lines that
are no white space to it; each of these is a stray character. What is behind the header is read as
it is read alone, as many lines further down as the header has. Directives are searched in the
header only. -/
theorem header_tokens (source : List Char) :
    header source ++ body source = source ∧
    (∀ key, directive? key (String.ofList source) =
      directive? key (String.ofList (header source))) ∧
    tokenize (String.ofList (header source)) =
      { tokens := (headerReports source).map Diagnostic.token ++
          [⟨.eof, "", .behind (header source)⟩]
        diagnostics := headerReports source } ∧
    (body source ≠ [] →
      tokenize (String.ofList source) = (tokenize (String.ofList (body source))).below
        (headerReports source) (headerLines source).length) ∧
    (headerReports source = [] ↔
      ∀ line ∈ headerLines source, ∀ c ∈ indentation line, isSpace c = true) := by
  refine ⟨header_append_body source, fun key => directive?_header key source,
    tokenize_header source, tokenize_behind_header, ?_⟩
  rw [headerReports, List.map_eq_nil_iff, strays_eq_nil_iff]

theorem header_tokens_noBreakSpace :
    let source := "\u00a0// @mode: ir\n 'a".toList
    let stray : Diagnostic := ⟨.strayCharacter '\u00a0', ⟨1, 1⟩⟩
    let unterminated : Diagnostic := ⟨.unterminatedString ⟨2, 2⟩, ⟨2, 2⟩⟩
    body source = " 'a".toList ∧
    tokenize (String.ofList source) =
      ⟨[stray.token, unterminated.token, ⟨.eof, "", ⟨2, 4⟩⟩], [stray, unterminated]⟩ := by
  intro source stray unterminated
  have hbody : body source = " 'a".toList := by decide +kernel
  refine ⟨hbody, ((header_tokens source).2.2.2.1 (by rw [hbody]; decide +kernel)).trans ?_⟩
  decide +kernel

/-- A line may tell the mode of a script and be no comment to the lexer. -/
theorem header_not_comment :
    let source := "\u00a0// @mode: ir\n1".toList
    headerLines source = ["\u00a0// @mode: ir\n".toList] ∧
    directive? "mode" (String.ofList source) = some "ir".toList ∧
    tokenize (String.ofList (header source)) ≠ ⟨[⟨.eof, "", ⟨2, 1⟩⟩], []⟩ ∧
    tokenize (String.ofList source) ≠ (tokenize (String.ofList (body source))).below [] 1 := by
  decide +kernel

end Script

end Quill

import Mathlib.Control.Monad.Basic
import ProcedureChart.Proofs.Expr.Scanning

/-!
# Spacing

A source is made of the characters of its tokens and of blanks, and nothing else. How a token is
written can be said without the source it stands in (`Spells`), so the cut of a source into lexemes
is an account of all its characters (`exists_pieces_of_lexemes`). Blanks only keep tokens apart:
with a blank between any two of them, the same characters are cut into the same tokens, whatever
the other blanks are (`lexes_written`). Although the scanner looks at the characters behind a token,
and at the token in front of a minus sign, a blank behind a token never changes what it takes.
-/

namespace ProcedureChart.Expr

variable {operand : Bool} {cs : List Char}

/-! ### The width of characters -/

theorem foldl_width (n : Nat) (cs : List Char) :
    cs.foldl (fun n c => n + c.utf8Size) n = n + width cs := by
  induction cs generalizing n with
  | nil => rfl
  | cons c cs ih =>
    have hcons : width (c :: cs) = 0 + c.utf8Size + width cs := ih _
    rw [List.foldl_cons, ih, hcons, Nat.zero_add, Nat.add_assoc]

theorem width_cons (c : Char) (cs : List Char) : width (c :: cs) = c.utf8Size + width cs := by
  rw [width, List.foldl_cons, foldl_width, Nat.zero_add]

theorem width_append (cs cs' : List Char) : width (cs ++ cs') = width cs + width cs' := by
  rw [width, List.foldl_append, foldl_width]
  rfl

theorem width_pos (h : cs ≠ []) : 0 < width cs := by
  obtain ⟨c, cs, rfl⟩ := List.exists_cons_of_ne_nil h
  rw [width_cons]
  exact Nat.add_pos_left c.utf8Size_pos _

/-- The width of characters is the size of their text. -/
theorem utf8ByteSize_ofList_eq_width (cs : List Char) :
    (String.ofList cs).utf8ByteSize = width cs := by
  induction cs with
  | nil => rfl
  | cons c cs ih =>
    rw [← List.singleton_append, String.ofList_append, String.utf8ByteSize_append, ih,
      List.singleton_append, width_cons, ← String.singleton_eq_ofList,
      String.utf8ByteSize_singleton]

/-! ### Sources in pieces -/

/-- A token, the characters it is written with, and the blanks behind them. -/
structure Piece where
  token : Token
  slice : List Char
  gap : List Char
  gap_blank : gap.all Text.isBlank

/-- A piece without its blanks. -/
def Piece.bare (p : Piece) : Token × List Char := (p.token, p.slice)

/-- The characters of pieces. -/
def written (pieces : List Piece) : List Char := pieces.flatMap fun p => p.slice ++ p.gap

/-- The lexemes of pieces that begin at a byte position. -/
def place (position : Nat) : List Piece → List Lexeme
  | [] => []
  | p :: rest => ⟨p.token, position⟩ :: place (position + width (p.slice ++ p.gap)) rest

/-- Each token is written with its characters, behind the one in front of it. -/
def SpellsAll : Bool → List (Token × List Char) → Prop
  | _, [] => True
  | operand, (t, w) :: rest => Spells operand t w ∧ SpellsAll t.endsOperand rest

/-- A blank stands between any two pieces. -/
def Separated (pieces : List Piece) : Prop := ∀ p ∈ pieces.dropLast, p.gap ≠ []

theorem written_cons (p : Piece) (pieces : List Piece) :
    written (p :: pieces) = p.slice ++ (p.gap ++ written pieces) := by
  rw [written, List.flatMap_cons, List.append_assoc]
  rfl

theorem map_token_place (position : Nat) (pieces : List Piece) :
    (place position pieces).map Lexeme.token = pieces.map Piece.token := by
  induction pieces generalizing position with
  | nil => rfl
  | cons p rest ih => rw [place, List.map_cons, ih, List.map_cons]

theorem map_token_eq_map_bare (pieces : List Piece) :
    pieces.map Piece.token = (pieces.map Piece.bare).map Prod.fst := by
  rw [List.map_map]
  rfl

theorem SpellsAll.slice_ne_nil {pieces : List Piece}
    (h : SpellsAll operand (pieces.map Piece.bare)) : ∀ p ∈ pieces, p.slice ≠ [] := by
  induction pieces generalizing operand with
  | nil => exact List.forall_mem_nil _
  | cons p rest ih => exact List.forall_mem_cons.2 ⟨h.1.ne_nil, ih h.2⟩

/-! ### Positions -/

/-- A lexeme begins behind all the characters in front of it. -/
theorem exists_append_of_mem_place {position : Nat} {pieces : List Piece} {l : Lexeme}
    (h : l ∈ place position pieces) :
    ∃ before behind, written pieces = before ++ behind ∧ l.position = position + width before := by
  induction pieces generalizing position with
  | nil => cases h
  | cons p rest ih =>
    rcases List.mem_cons.1 h with rfl | h
    · exact ⟨[], _, rfl, rfl⟩
    · obtain ⟨before, behind, hwritten, hposition⟩ := ih h
      refine ⟨p.slice ++ p.gap ++ before, behind, ?_, ?_⟩
      · rw [written_cons, hwritten]
        simp only [List.append_assoc]
      · rw [hposition, width_append _ before, Nat.add_assoc]

/-- Lexemes stand one behind the other. -/
theorem pairwise_place {position : Nat} {pieces : List Piece} (h : ∀ p ∈ pieces, p.slice ≠ []) :
    ((place position pieces).map Lexeme.position).Pairwise (· < ·) := by
  induction pieces generalizing position with
  | nil => exact .nil
  | cons p rest ih =>
    obtain ⟨hp, hrest⟩ := List.forall_mem_cons.1 h
    refine List.pairwise_cons.2 ⟨?_, ih hrest⟩
    intro n hn
    obtain ⟨l, hl, rfl⟩ := List.mem_map.1 hn
    obtain ⟨before, -, -, hposition⟩ := exists_append_of_mem_place hl
    have hpos : 0 < width (p.slice ++ p.gap) := width_pos (List.append_ne_nil_of_left_ne_nil hp _)
    change position < l.position
    omega

/-! ### Cutting and joining -/

/-- The lexemes of a text account for all its characters: each is in the slice of some token or in
the blanks behind it, apart from those in front of the first token. -/
theorem exists_pieces_of_lexemes {previous : Option Token} {position : Nat} {ls : List Lexeme}
    (h : lexemes previous position cs = .ok ls) :
    ∃ front pieces, front.all Text.isBlank ∧ cs = front ++ written pieces ∧
      ls = place (position + width front) pieces ∧
      SpellsAll (previous.any Token.endsOperand) (pieces.map Piece.bare) := by
  fun_induction lexemes previous position cs generalizing ls with
  | case1 =>
    cases h
    exact ⟨[], [], rfl, rfl, rfl, trivial⟩
  | case2 previous position c rest hc ih =>
    obtain ⟨front, pieces, hfront, rfl, rfl, hspells⟩ := ih h
    refine ⟨c :: front, pieces, ?_, rfl, ?_, hspells⟩
    · rw [List.all_cons, hc, hfront]
      rfl
    · rw [width_cons, Nat.add_assoc]
  | case3 => cases h
  | case4 => cases h
  | case5 previous position c rest hc s hs more hmore ih =>
    cases h
    -- the blanks in front of the other tokens stand behind this one
    obtain ⟨gap, pieces, hgap, hrest, hls, hspells⟩ := ih hmore
    refine ⟨[], ⟨s.token, s.slice, gap, hgap⟩ :: pieces, rfl, ?_, ?_, (spells_of_scan hs).1,
      hspells⟩
    · rw [List.nil_append, written_cons, ← hrest, s.slice_append_rest]
    · rw [hls, place, width_append, Nat.add_assoc]
      rfl

/-- Pieces with blanks between them are cut into their tokens again. A blank ends every token, so no
two of them are taken for one. -/
theorem lexes_written {pieces : List Piece} (hspells : SpellsAll operand (pieces.map Piece.bare))
    (hseparated : Separated pieces) : Lexes operand (written pieces) (pieces.map Piece.token) := by
  induction pieces generalizing operand with
  | nil => exact lexes_nil
  | cons p rest ih =>
    obtain ⟨hp, hrest⟩ := hspells
    have hspaced : Spaced (p.gap ++ written rest) := by
      cases rest with
      | nil =>
        rw [written, List.flatMap_nil, List.append_nil]
        exact spaced_of_all p.gap_blank
      | cons q rest => exact spaced_append (hseparated p List.mem_cons_self) p.gap_blank
    rw [written_cons]
    refine (Lexes.blanks p.gap_blank (ih hrest ?_)).token (hp.scans hspaced)
    intro q hq
    cases rest with
    | nil => cases hq
    | cons r rest => exact hseparated q (List.mem_cons_of_mem _ hq)

/-- **Tokenizing loses nothing and ignores spacing**: the lexemes of a source begin at characters,
one behind the other, and the source is the characters of its tokens with blanks in front of them,
between them and behind them. Written again with other blanks, at least one between any two tokens,
these characters have the same tokens. -/
theorem tokenize_spacing {source : String} {ls : List Lexeme} (h : tokenize source = .ok ls) :
    (ls.map Lexeme.position).Pairwise (· < ·) ∧
    (∀ l ∈ ls, String.Pos.Raw.IsValid source ⟨l.position⟩) ∧
    ∃ front pieces, front.all Text.isBlank ∧
      source = String.ofList (front ++ written pieces) ∧ ls = place (width front) pieces ∧
      SpellsAll false (pieces.map Piece.bare) ∧
      ∀ front' pieces', front'.all Text.isBlank → pieces'.map Piece.bare = pieces.map Piece.bare →
        Separated pieces' →
        ∃ ls', tokenize (String.ofList (front' ++ written pieces')) = .ok ls' ∧
          ls'.map Lexeme.token = ls.map Lexeme.token := by
  obtain ⟨front, pieces, hfront, hsource, rfl, hspells⟩ := exists_pieces_of_lexemes h
  rw [Nat.zero_add] at h ⊢
  have hsource : source = String.ofList (front ++ written pieces) := by
    rw [← hsource, String.ofList_toList]
  refine ⟨pairwise_place hspells.slice_ne_nil, ?_, front, pieces, hfront, hsource, rfl, hspells, ?_⟩
  · intro l hl
    obtain ⟨before, behind, hwritten, hposition⟩ := exists_append_of_mem_place hl
    rw [hsource, hwritten, String.Pos.Raw.isValid_iff_exists_append]
    refine ⟨String.ofList (front ++ before), String.ofList behind, ?_, ?_⟩
    · rw [← String.ofList_append, List.append_assoc]
    · refine String.Pos.Raw.ext ?_
      rw [String.byteIdx_rawEndPos, utf8ByteSize_ofList_eq_width, width_append]
      exact hposition
  · intro front' pieces' hfront' hbare hseparated
    have hlexes : Lexes false (String.ofList (front' ++ written pieces')).toList
        (pieces'.map Piece.token) := by
      rw [String.toList_ofList]
      exact (lexes_written (hbare ▸ hspells) hseparated).blanks hfront'
    obtain ⟨ls', hls', htokens⟩ := tokenize_of_lexes hlexes
    refine ⟨ls', hls', ?_⟩
    rw [htokens, map_token_place, map_token_eq_map_bare, map_token_eq_map_bare, hbare]

/-- A comparison with a negative number, and no blank where none is needed. -/
def tightSource : String := "n>=-1.5 ||$k"

/-- The lexemes of the comparison, the blank in front of `||` aside. -/
def tightLexemes : List Lexeme := [
  ⟨.name "n", 0⟩, ⟨.mark .greaterEqual, 1⟩, ⟨.number (-1.5), 3⟩, ⟨.mark .or, 8⟩, ⟨.state "k", 10⟩]

/-- The comparison is made of its tokens and one blank. -/
theorem tokenize_spacing_tight :
    tokenize tightSource = .ok tightLexemes ∧
    (tightLexemes.map Lexeme.position).Pairwise (· < ·) ∧
    ∃ front pieces, tightSource = String.ofList (front ++ written pieces) ∧
      tightLexemes = place (width front) pieces ∧
      ∀ pieces', pieces'.map Piece.bare = pieces.map Piece.bare → Separated pieces' →
        ∃ ls', tokenize (String.ofList (written pieces')) = .ok ls' ∧
          ls'.map Lexeme.token = tightLexemes.map Lexeme.token := by
  have h : tokenize tightSource = .ok tightLexemes := by decide +kernel
  obtain ⟨hpositions, -, front, pieces, -, hsource, hplace, -, hrespaced⟩ := tokenize_spacing h
  exact ⟨h, hpositions, front, pieces, hsource, hplace, fun pieces' => hrespaced [] pieces' rfl⟩

end ProcedureChart.Expr

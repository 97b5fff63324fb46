/-
  Symbolic expressions as text: printing, reading, and that what was printed is read back.

  A string is printed with its quotes and backslashes escaped, so nothing that stands in it can
  end it (`lex_escape`).  `read_printLines` puts this together for a whole text: a reader finds
  the expressions that were printed and no others, whatever strings they hold.
-/
import Mathlib.Data.List.Basic

namespace SExpr

inductive Expr where
  | sym (s : String)
  | str (s : String)
  | list (es : List Expr)

inductive Token where
  | lparen
  | rparen
  | sym (s : String)
  | str (s : String)
  deriving DecidableEq, Repr

/-! ## Printing -/

def escape (s : List Char) : List Char :=
  s.flatMap fun c => if c = '"' ∨ c = '\\' then ['\\', c] else [c]

mutual

def print : Expr → List Char
  | .sym s => s.toList
  | .str s => '"' :: (escape s.toList ++ ['"'])
  | .list [] => ['(', ')']
  | .list (e :: es) => '(' :: (print e ++ (printTail es ++ [')']))

def printTail : List Expr → List Char
  | [] => []
  | e :: es => ' ' :: (print e ++ printTail es)

end

/-- One expression a line. -/
def printLines (es : List Expr) : List Char :=
  es.flatMap fun e => print e ++ ['\n']

theorem printLines_append (es fs : List Expr) :
    printLines (es ++ fs) = printLines es ++ printLines fs :=
  List.flatMap_append

/-! ## Reading -/

def isDelim (c : Char) : Bool :=
  c == '(' || c == ')' || c == '"' || c == ';' || c.isWhitespace

/-- Between tokens, in a symbol, in a string, after a backslash in a string, in a comment; with
    the characters so far, last first. -/
inductive LexState where
  | idle
  | sym (acc : List Char)
  | str (acc : List Char)
  | escaped (acc : List Char)
  | comment

def begin (c : Char) : List Token × LexState :=
  if c = '(' then ([.lparen], .idle)
  else if c = ')' then ([.rparen], .idle)
  else if c = '"' then ([], .str [])
  else if c = ';' then ([], .comment)
  else if c.isWhitespace then ([], .idle)
  else ([], .sym [c])

def lexStep : LexState → Char → List Token × LexState
  | .idle, c => begin c
  | .sym acc, c =>
    if isDelim c then (.sym (String.ofList acc.reverse) :: (begin c).1, (begin c).2)
    else ([], .sym (c :: acc))
  | .str acc, c =>
    if c = '"' then ([.str (String.ofList acc.reverse)], .idle)
    else if c = '\\' then ([], .escaped acc)
    else ([], .str (c :: acc))
  | .escaped acc, c => ([], .str (c :: acc))
  | .comment, c => if c = '\n' then ([], .idle) else ([], .comment)

/-- An unfinished string has no tokens. -/
def lex : LexState → List Char → Option (List Token)
  | .idle, [] => some []
  | .sym acc, [] => some [.sym (String.ofList acc.reverse)]
  | .comment, [] => some []
  | _, [] => none
  | st, c :: cs => (lex (lexStep st c).2 cs).map ((lexStep st c).1 ++ ·)

/-- The stack holds the lists that are open, innermost first, each with its last element
    first. -/
def parse : List (List Expr) → List Token → Option (List Expr)
  | [acc], [] => some acc.reverse
  | acc :: stack, .sym s :: ts => parse ((.sym s :: acc) :: stack) ts
  | acc :: stack, .str s :: ts => parse ((.str s :: acc) :: stack) ts
  | stack, .lparen :: ts => parse ([] :: stack) ts
  | acc :: outer :: stack, .rparen :: ts => parse ((.list acc.reverse :: outer) :: stack) ts
  | _, _ => none

def read (text : List Char) : Option (List Expr) :=
  (lex .idle text).bind (parse [[]])

/-! ## Reading what was printed -/

/-- A symbol is a word. -/
def properSym (s : String) : Bool :=
  s.toList ≠ [] && s.toList.all fun c => !isDelim c

mutual

def proper : Expr → Bool
  | .sym s => properSym s
  | .str _ => true
  | .list es => properList es

def properList : List Expr → Bool
  | [] => true
  | e :: es => proper e && properList es

end

mutual

def tokens : Expr → List Token
  | .sym s => [.sym s]
  | .str s => [.str s]
  | .list es => .lparen :: (tokensList es ++ [.rparen])

def tokensList : List Expr → List Token
  | [] => []
  | e :: es => tokens e ++ tokensList es

end

theorem lex_cons (st : LexState) (c : Char) (cs : List Char) :
    lex st (c :: cs) = (lex (lexStep st c).2 cs).map ((lexStep st c).1 ++ ·) := by
  cases st <;> rfl

theorem map_append_nil (o : Option (List Token)) : o.map (([] : List Token) ++ ·) = o := by
  cases o <;> rfl

theorem map_map_append (o : Option (List Token)) (ts us : List Token) :
    (o.map (us ++ ·)).map (ts ++ ·) = o.map (ts ++ us ++ ·) := by
  cases o with
  | none => rfl
  | some vs => simp

variable (cs : List Char)

theorem lex_space : lex .idle (' ' :: cs) = lex .idle cs := by
  exact map_append_nil _

theorem lex_newline : lex .idle ('\n' :: cs) = lex .idle cs := by
  exact map_append_nil _

theorem lex_lparen : lex .idle ('(' :: cs) = (lex .idle cs).map ([.lparen] ++ ·) :=
  lex_cons _ _ _

theorem lex_rparen : lex .idle (')' :: cs) = (lex .idle cs).map ([.rparen] ++ ·) :=
  lex_cons _ _ _

/-- Inside a string, escaping undoes itself up to the closing quote. -/
theorem lex_escape (s acc cs : List Char) :
    lex (.str acc) (escape s ++ '"' :: cs) =
      (lex .idle cs).map ([.str (String.ofList (acc.reverse ++ s))] ++ ·) := by
  induction s generalizing acc with
  | nil =>
    show lex (.str acc) ('"' :: cs) = _
    rw [lex_cons, List.append_nil]
    rfl
  | cons c s ih =>
    have hih := ih (c :: acc)
    rw [List.reverse_cons, List.append_assoc, List.singleton_append] at hih
    rw [← hih]
    unfold escape
    rw [List.flatMap_cons]
    by_cases hc : c = '"' ∨ c = '\\'
    · rw [if_pos hc]
      show lex (.str acc) ('\\' :: c :: _) = _
      show (lex (.escaped acc) (c :: _)).map ([] ++ ·) = _
      rw [map_append_nil, lex_cons]
      exact map_append_nil _
    · have hquote : c ≠ '"' := fun h => hc (.inl h)
      have hslash : c ≠ '\\' := fun h => hc (.inr h)
      have hstep : lexStep (.str acc) c = ([], .str (c :: acc)) := by
        rw [lexStep, if_neg hquote, if_neg hslash]
      rw [if_neg hc]
      show lex (.str acc) (c :: _) = _
      rw [lex_cons, hstep]
      exact map_append_nil _

theorem begin_of_not_delim {c : Char} (h : isDelim c = false) : begin c = ([], .sym [c]) := by
  unfold isDelim at h
  simp only [Bool.or_eq_false_iff, beq_eq_false_iff_ne] at h
  obtain ⟨⟨⟨⟨hl, hr⟩, hq⟩, hs⟩, hw⟩ := h
  unfold begin
  rw [if_neg hl, if_neg hr, if_neg hq, if_neg hs, hw]
  rfl

theorem lex_sym_tail (s acc : List Char) (hs : ∀ c ∈ s, isDelim c = false) {d : Char}
    (hd : isDelim d = true) (cs : List Char) :
    lex (.sym acc) (s ++ d :: cs) =
      (lex .idle (d :: cs)).map ([.sym (String.ofList (acc.reverse ++ s))] ++ ·) := by
  induction s generalizing acc with
  | nil =>
    have hstep : lexStep (.sym acc) d =
        (.sym (String.ofList acc.reverse) :: (begin d).1, (begin d).2) := by
      rw [lexStep, if_pos hd]
    rw [List.nil_append, lex_cons, hstep, lex_cons, map_map_append, List.append_nil]
    rfl
  | cons c s ih =>
    have hc : isDelim c = false := hs c List.mem_cons_self
    have hstep : lexStep (.sym acc) c = ([], .sym (c :: acc)) := by
      rw [lexStep, hc]
      rfl
    have hih := ih (c :: acc) fun x hx => hs x (List.mem_cons_of_mem _ hx)
    rw [List.reverse_cons, List.append_assoc, List.singleton_append] at hih
    rw [List.cons_append, lex_cons, hstep, ← hih]
    exact map_append_nil _

theorem lex_sym {s : String} (hs : properSym s = true) {d : Char} (hd : isDelim d = true)
    (cs : List Char) :
    lex .idle (s.toList ++ d :: cs) = (lex .idle (d :: cs)).map ([.sym s] ++ ·) := by
  obtain ⟨hne, hall⟩ := Bool.and_eq_true_iff.mp hs
  have hword : ∀ c ∈ s.toList, isDelim c = false := fun c hc => by
    have := List.all_eq_true.mp hall c hc
    simpa using this
  obtain ⟨c, tail, hcons⟩ := List.exists_cons_of_ne_nil (of_decide_eq_true hne)
  have hs' : String.ofList ([c].reverse ++ tail) = s := by
    rw [List.reverse_singleton, List.singleton_append, ← hcons, String.ofList_toList]
  rw [hcons] at hword ⊢
  rw [List.cons_append, lex_cons]
  show (lex (begin c).2 _).map ((begin c).1 ++ ·) = _
  rw [begin_of_not_delim (hword c List.mem_cons_self), map_append_nil,
    lex_sym_tail tail [c] (fun x hx => hword x (List.mem_cons_of_mem _ hx)) hd, hs']

mutual

/-- The tokens of a printed expression, when what follows cannot lengthen its last symbol. -/
theorem lex_print : (e : Expr) → proper e = true → ∀ {d : Char}, isDelim d = true →
    ∀ cs : List Char,
      lex .idle (print e ++ d :: cs) = (lex .idle (d :: cs)).map (tokens e ++ ·)
  | .sym s, he, d, hd, cs => by
    rw [print, tokens]
    exact lex_sym (by rw [proper] at he; exact he) hd cs
  | .str s, _, d, _, cs => by
    rw [print, tokens, List.cons_append, List.append_assoc, lex_cons]
    show (lex (.str []) _).map ([] ++ ·) = _
    rw [map_append_nil, List.singleton_append, lex_escape, List.reverse_nil, List.nil_append,
      String.ofList_toList]
  | .list [], _, d, _, cs => by
    rw [print, tokens, tokensList]
    show lex .idle ('(' :: ')' :: d :: cs) = _
    rw [lex_lparen, lex_rparen, map_map_append]
    rfl
  | .list (e :: es), he, d, _, cs => by
    have hboth : proper e = true ∧ properList es = true := by
      rw [proper, properList] at he
      exact Bool.and_eq_true_iff.mp he
    have hclose : isDelim ')' = true := rfl
    rw [print, tokens, tokensList]
    show lex .idle ('(' :: (_ ++ d :: cs)) = _
    rw [lex_lparen, List.append_assoc, List.append_assoc, List.singleton_append]
    cases es with
    | nil =>
      rw [printTail, tokensList, List.nil_append, lex_print e hboth.1 hclose, lex_rparen,
        map_map_append, map_map_append, List.append_nil]
      simp
    | cons f fs =>
      have htail := lex_printTail (f :: fs) hboth.2 hclose (d :: cs)
      have hspace : ∃ rest, printTail (f :: fs) ++ ')' :: d :: cs = ' ' :: rest := by
        rw [printTail]
        exact ⟨_, rfl⟩
      obtain ⟨rest, hrest⟩ := hspace
      rw [hrest] at htail ⊢
      rw [lex_print e hboth.1 rfl, htail, lex_rparen, map_map_append, map_map_append,
        map_map_append]
      simp

theorem lex_printTail : (es : List Expr) → properList es = true → ∀ {d : Char},
    isDelim d = true → ∀ cs : List Char,
      lex .idle (printTail es ++ d :: cs) = (lex .idle (d :: cs)).map (tokensList es ++ ·)
  | [], _, d, _, cs => by
    rw [printTail, tokensList]
    exact (map_append_nil _).symm
  | e :: es, he, d, hd, cs => by
    have hboth : proper e = true ∧ properList es = true := by
      rw [properList] at he
      exact Bool.and_eq_true_iff.mp he
    have htail := lex_printTail es hboth.2 hd cs
    rw [printTail, tokensList]
    show lex .idle (' ' :: ((print e ++ printTail es) ++ d :: cs)) = _
    rw [lex_space, List.append_assoc, ← map_map_append, ← htail]
    cases es with
    | nil =>
      rw [printTail]
      exact lex_print e hboth.1 hd cs
    | cons f fs =>
      have hspace : ∃ rest, printTail (f :: fs) ++ d :: cs = ' ' :: rest := by
        rw [printTail]
        exact ⟨_, rfl⟩
      obtain ⟨rest, hrest⟩ := hspace
      rw [hrest]
      exact lex_print e hboth.1 rfl rest

end

mutual

theorem parse_tokens : (e : Expr) → (acc : List Expr) → (stack : List (List Expr)) →
    (ts : List Token) → parse (acc :: stack) (tokens e ++ ts) = parse ((e :: acc) :: stack) ts
  | .sym s, acc, stack, ts => by
    rw [tokens, List.singleton_append, parse]
  | .str s, acc, stack, ts => by
    rw [tokens, List.singleton_append, parse]
  | .list es, acc, stack, ts => by
    rw [tokens, List.cons_append, parse, List.append_assoc, List.singleton_append,
      parse_tokensList es, parse, List.append_nil, List.reverse_reverse]

theorem parse_tokensList : (es : List Expr) → (acc : List Expr) → (stack : List (List Expr)) →
    (ts : List Token) →
      parse (acc :: stack) (tokensList es ++ ts) = parse ((es.reverse ++ acc) :: stack) ts
  | [], acc, stack, ts => by
    rw [tokensList]
    rfl
  | e :: es, acc, stack, ts => by
    rw [tokensList, List.append_assoc, parse_tokens e, parse_tokensList es, List.reverse_cons,
      List.append_assoc, List.singleton_append]

end

theorem lex_printLines {es : List Expr} (h : ∀ e ∈ es, proper e = true) :
    lex .idle (printLines es) = some (tokensList es) := by
  induction es with
  | nil =>
    rfl
  | cons e es ih =>
    have hline : printLines (e :: es) = print e ++ '\n' :: printLines es := by
      unfold printLines
      rw [List.flatMap_cons, List.append_assoc, List.singleton_append]
    rw [hline, lex_print e (h e List.mem_cons_self) rfl, lex_newline,
      ih fun x hx => h x (List.mem_cons_of_mem _ hx), tokensList, Option.map_some]

/-- A printed text is read back as the expressions that were printed. -/
theorem read_printLines {es : List Expr} (h : ∀ e ∈ es, proper e = true) :
    read (printLines es) = some es := by
  have hparse := parse_tokensList es [] [] []
  rw [List.append_nil, List.append_nil] at hparse
  unfold read
  rw [lex_printLines h, Option.bind_some, hparse, parse, List.reverse_reverse]

end SExpr

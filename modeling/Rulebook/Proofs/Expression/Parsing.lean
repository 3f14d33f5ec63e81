import Rulebook.Expression.Evaluation
import Rulebook.Proofs.Expression.Lexing
import Rulebook.Proofs.Expression.Spelling

/-!
# `Rulebook.Proofs.Expression.Parsing` — the parser reads the grammar

Every function of the parser reads one part of the grammar. `Reads` says what that means in both directions:
what it reads is spelled as the part, and it reads whatever has the form of the part, if what comes after does not go
on with it. Each function has this property when the functions that it is made of have it, so the parser has it by
induction on the allowance for nesting.

* `Reads.chain`, `Reads.comparison`, `reads_unary` — the functions of the parser, one by one;
* `parseTree_spells`, `parseTree_of_derives` — all tokens of a source, in both directions;
* `spells_of_parse`, `parse_of_derives` — the same of a source and its expression;
* `parseTree_iff_derives` — **the parser accepts exactly the grammar**, within the limits on nesting and height.
-/

namespace Rulebook.Expression

/-- Two operands are joined when the tree is not too high, and only then. -/
theorem join_eq_ok_iff {op : BinaryOp} {left right node : Tree} :
    join op left right = .ok node ↔
      (Tree.ofBinary op left right).storedHeight ≤ maxHeight ∧ Tree.ofBinary op left right = node := by
  rw [join]
  split
  · rename_i high
    exact ⟨nofun, fun h => absurd h.1 (Nat.not_le.mpr high)⟩
  · rename_i low
    rw [Except.ok.injEq, and_iff_right (Nat.not_lt.mp low)]

/-! ## Tokens ahead -/

/-- Every path among the tokens is read as a path that prints as the token. -/
def Readable (ls : List Lexeme) : Prop :=
  ∀ l ∈ ls, ∀ s, l.token = .path s → ∃ p, Path.parse s = .ok p ∧ p.text = s

theorem readable_of_lex {source : String} {ls : List Lexeme} (h : lex source = .ok ls) : Readable ls :=
  fun _ mem _ path =>
    let ⟨p, parsed, _, text⟩ := mem_lex_path h mem path
    ⟨p, parsed, text⟩

theorem readable_append {ls rest : List Lexeme} : Readable (ls ++ rest) ↔ Readable ls ∧ Readable rest :=
  List.forall_mem_append

theorem readable_cons {l : Lexeme} {rest : List Lexeme} (h : Readable (l :: rest)) : Readable rest :=
  (List.forall_mem_cons.mp h).2

/-- The operator that is found stands first. -/
theorem leadingOp?_eq_some {among : BinaryOp → Bool} {ls rest : List Lexeme} {op : BinaryOp}
    (h : leadingOp? among ls = some (op, rest)) : among op ∧ ∃ s, ls = ⟨.op op, s⟩ :: rest := by
  unfold leadingOp? at h
  split at h
  · split at h
    · rename_i s rest admits
      cases h
      exact ⟨admits, s, rfl⟩
    · cases h
  · cases h

theorem leadingOp?_cons {among : BinaryOp → Bool} {op : BinaryOp} (h : among op) (s : Span) (rest : List Lexeme) :
    leadingOp? among (⟨.op op, s⟩ :: rest) = some (op, rest) := by
  rw [leadingOp?, if_pos h]

theorem leadingOp?_eq_none {among : BinaryOp → Bool} {ls : List Lexeme}
    (h : ¬ StartsWith among (tokens ls)) : leadingOp? among ls = none := by
  cases eq : leadingOp? among ls with
  | none => rfl
  | some found =>
      obtain ⟨admits, s, rfl⟩ := leadingOp?_eq_some eq
      exact absurd admits h

/-! ## Parts of the parser -/

/-- A function of the parser reads a part of the grammar: what it reads is spelled as this part, and it reads all that
    has the form of the part, up to tokens that do not go on with it. -/
structure Reads (parse : List Lexeme → Parsed) (n : Nat) (p : Part) : Prop where
  sound : ∀ {ls rest : List Lexeme} {node : Tree}, Readable ls → parse ls = .ok (node, rest) →
    ∃ used, ls = used ++ rest ∧ Spells n p used node
  complete : ∀ {used rest : List Lexeme} {a : Outline}, Readable used → Derives n p (tokens used) a →
    a.Low maxHeight → ¬ StartsWith p.continues (tokens rest) →
    ∃ node, parse (used ++ rest) = .ok (node, rest) ∧ node.Shows a

/-- The first operand of a chain is part of its tree. -/
theorem Links.low {n : Nat} {l : Level} {a b : Outline} {ts : List Token} (h : Links n l a ts b)
    (low : b.Low maxHeight) : a.Low maxHeight := by
  induction h with
  | nil => exact low
  | cons _ _ _ ih => exact (ih low).1

section Chain

variable {operand : List Lexeme → Parsed} {n : Nat} {l : Level} (h : Reads operand n l.operand)

include h

theorem chainFrom_sound {bound : Nat} {left node : Tree} {before ls rest : List Lexeme} (readable : Readable ls)
    (spelled : Spells n (.chain l) before left)
    (parsed : chainFrom l.admits operand bound left ls = .ok (node, rest)) :
    ∃ used, ls = used ++ rest ∧ Spells n (.chain l) (before ++ used) node := by
  induction bound generalizing left before ls with
  | zero =>
      cases parsed
      exact ⟨[], rfl, by rwa [List.append_nil]⟩
  | succ bound ih =>
      rw [chainFrom] at parsed
      split at parsed
      · cases parsed
        exact ⟨[], rfl, by rwa [List.append_nil]⟩
      · rename_i op later found
        obtain ⟨admits, s, rfl⟩ := leadingOp?_eq_some found
        obtain ⟨⟨right, later'⟩, first, follows⟩ := bind_eq_ok.mp parsed
        obtain ⟨t, joined, follows⟩ := bind_eq_ok.mp follows
        obtain ⟨us, rfl, spelledRight⟩ := h.sound (readable_cons readable) first
        obtain ⟨low, rfl⟩ := join_eq_ok_iff.mp joined
        have readable' := (readable_append.mp (readable_cons readable)).2
        obtain ⟨vs, rfl, spelledAll⟩ := ih readable' (.chain s spelled admits spelledRight low) follows
        refine ⟨⟨.op op, s⟩ :: (us ++ vs), by simp, ?_⟩
        rw [List.append_assoc] at spelledAll
        exact spelledAll

theorem chainFrom_complete {bound : Nat} {left : Tree} {a b : Outline} {used rest : List Lexeme}
    (links : Links n l a (tokens used) b) (readable : Readable used) (shows : left.Shows a)
    (low : b.Low maxHeight) (enough : used.length ≤ bound)
    (stop : ¬ StartsWith (Part.chain l).continues (tokens rest)) :
    ∃ node, chainFrom l.admits operand bound left (used ++ rest) = .ok (node, rest) ∧ node.Shows b := by
  -- The induction is on the links; the bound only has to last for the tokens that they take.
  generalize eq : tokens used = ts at links
  induction links generalizing bound left used with
  | nil =>
      obtain rfl := List.map_eq_nil_iff.mp eq
      have ends : leadingOp? l.admits rest = none := leadingOp?_eq_none fun starts =>
        stop (starts.mono fun op admits => by rw [l.continues_eq, admits, Bool.or_true])
      refine ⟨left, ?_, shows⟩
      cases bound with
      | zero => rfl
      | succ bound => rw [List.nil_append, chainFrom, ends]
  | cons admits derives links ih =>
      obtain ⟨⟨t, s⟩, used, rfl, rfl, after⟩ := List.map_eq_cons_iff.mp eq
      obtain ⟨us, vs, rfl, rfl, rfl⟩ := List.map_eq_append_iff.mp after
      obtain ⟨bound, rfl⟩ := Nat.exists_eq_add_of_le' (Nat.le_trans (Nat.succ_le_succ (Nat.zero_le _)) enough)
      have enough' : vs.length ≤ bound := by
        simp only [List.length_cons, List.length_append] at enough
        omega
      obtain ⟨-, lowRight, height⟩ := links.low low
      obtain ⟨readable, readable'⟩ := readable_append.mp (readable_cons readable)
      have ends := links.ends stop
      rw [← List.map_append] at ends
      obtain ⟨right, parsed, showsRight⟩ := h.complete readable derives lowRight ends
      obtain ⟨node, parsed', showsAll⟩ := ih readable' (shows.binary showsRight _) low enough' rfl
      refine ⟨node, ?_, showsAll⟩
      rw [List.cons_append, List.append_assoc, chainFrom, leadingOp?_cons admits]
      have joined := join_eq_ok_iff.mpr ⟨Nat.le_trans (Nat.le_of_eq (shows.binary showsRight _).height) height, rfl⟩
      simp only [parsed, bind, Except.bind, joined, parsed']

/-- A chain of operands reads a level of the grammar. -/
theorem Reads.chain : Reads (chain l.admits operand) n (.chain l) where
  sound := by
    intro ls rest node readable parsed
    unfold Expression.chain at parsed
    obtain ⟨⟨left, later⟩, first, follows⟩ := bind_eq_ok.mp parsed
    obtain ⟨us, rfl, spelled⟩ := h.sound readable first
    obtain ⟨vs, rfl, spelledAll⟩ := chainFrom_sound h (readable_append.mp readable).2 (.single spelled) follows
    exact ⟨us ++ vs, (List.append_assoc ..).symm, spelledAll⟩
  complete := by
    intro used rest b readable derives low stop
    obtain ⟨us, a, vs, eq, first, links⟩ := derives_chain_iff.mp derives
    obtain ⟨us, vs, rfl, rfl, rfl⟩ := List.map_eq_append_iff.mp eq
    obtain ⟨readable, readable'⟩ := readable_append.mp readable
    have ends := links.ends stop
    rw [← List.map_append] at ends
    obtain ⟨left, parsed, shows⟩ := h.complete readable first (links.low low) ends
    obtain ⟨node, parsed', shows'⟩ :=
      chainFrom_complete h links readable' shows low (Nat.le_add_right _ rest.length) stop
    refine ⟨node, ?_, shows'⟩
    unfold Expression.chain
    rw [List.append_assoc]
    simp only [parsed, bind, Except.bind, List.length_append, parsed']

end Chain

/-- One comparison at most of two sums. -/
theorem Reads.comparison {unary : List Lexeme → Parsed} {n : Nat} (h : Reads (sum unary) n (.chain .sum)) :
    Reads (Expression.comparison unary) n .comparison where
  sound := by
    intro ls rest node readable parsed
    unfold Expression.comparison at parsed
    obtain ⟨⟨left, later⟩, first, follows⟩ := bind_eq_ok.mp parsed
    obtain ⟨us, rfl, spelled⟩ := h.sound readable first
    dsimp only at follows
    split at follows
    · cases follows
      exact ⟨us, rfl, .sum spelled⟩
    · rename_i op later' found
      obtain ⟨compares, s, rfl⟩ := leadingOp?_eq_some found
      have readable' := readable_cons (readable_append.mp readable).2
      obtain ⟨⟨right, later⟩, second, follows⟩ := bind_eq_ok.mp follows
      obtain ⟨t, joined, follows⟩ := bind_eq_ok.mp follows
      cases follows
      obtain ⟨vs, rfl, spelled'⟩ := h.sound readable' second
      obtain ⟨low, rfl⟩ := join_eq_ok_iff.mp joined
      exact ⟨us ++ ⟨.op op, s⟩ :: vs, by simp, .comparison s spelled compares spelled' low⟩
  complete := by
    intro used rest c readable derives low stop
    -- Nothing that ends a comparison goes on with a sum, and no operator that compares does.
    have ends : ∀ {rest : List Token}, ¬ StartsWith Part.comparison.continues rest →
        ¬ StartsWith (Part.chain .sum).continues rest := fun stop starts => stop (starts.mono fun _ _ => rfl)
    generalize eq : tokens used = ts at derives
    cases derives with
    | sum derives =>
        obtain ⟨left, parsed, shows⟩ := h.complete readable (eq ▸ derives) low (ends stop)
        refine ⟨left, ?_, shows⟩
        have none : leadingOp? BinaryOp.isComparison rest = none :=
          leadingOp?_eq_none fun starts => stop (starts.mono fun _ _ => rfl)
        unfold Expression.comparison
        simp only [parsed, bind, Except.bind, none]
        rfl
    | comparison derives compares derives' =>
        obtain ⟨us, later, rfl, rfl, after⟩ := List.map_eq_append_iff.mp eq
        obtain ⟨⟨t, s⟩, vs, rfl, rfl, rfl⟩ := List.map_eq_cons_iff.mp after
        obtain ⟨readable, readable'⟩ := readable_append.mp readable
        obtain ⟨low, low', height⟩ := low
        have between : ¬ StartsWith (Part.chain .sum).continues (tokens (⟨.op _, s⟩ :: (vs ++ rest))) :=
          Bool.eq_false_iff.mp (sum_continues_of_isComparison compares)
        obtain ⟨left, parsed, shows⟩ := h.complete readable derives low between
        obtain ⟨right, parsed', shows'⟩ := h.complete (readable_cons readable') derives' low' (ends stop)
        refine ⟨_, ?_, shows.binary shows' _⟩
        unfold Expression.comparison
        rw [List.append_assoc, List.cons_append]
        have joined := join_eq_ok_iff.mpr ⟨Nat.le_trans (Nat.le_of_eq (shows.binary shows' _).height) height, rfl⟩
        simp only [parsed, bind, Except.bind, leadingOp?_cons compares, parsed', joined]
        rfl

/-- The parser reads comparisons where it reads what stands below them. -/
theorem Reads.above {unary : List Lexeme → Parsed} {n : Nat} (h : Reads unary n .unary) :
    Reads (Expression.comparison unary) n .comparison := by
  have products : Reads (product unary) n (.chain .product) := Reads.chain (l := .product) h
  have sums : Reads (sum unary) n (.chain .sum) := Reads.chain (l := .sum) products
  exact sums.comparison

/-! ## Operands -/

/-- A token that is an operand by itself is read as a leaf. -/
theorem unary_operand {length allowance : Nat} {l : Lexeme} (operand : l.token.IsOperand)
    (readable : Readable [l]) (rest : List Lexeme) :
    ∃ node, unary length allowance (l :: rest) = .ok (node, rest) ∧ node.Shows (.leaf l.token) ∧
      Spells allowance .primary [l] node := by
  obtain ⟨t, s⟩ := l
  cases t with
  | literal v => exact ⟨.literal v s, by unfold unary; rfl, ⟨rfl, rfl⟩, .literal v s⟩
  | path text =>
      obtain ⟨p, parsed, rfl⟩ := readable _ List.mem_cons_self text rfl
      refine ⟨.field p s, ?_, ⟨rfl, rfl⟩, .field p s⟩
      unfold unary
      simp only [parsed]
  | op o => exact operand.elim
  | openParen => exact operand.elim
  | closeParen => exact operand.elim

/-- What stands in parentheses ends at a closing one. -/
theorem closing_eq_ok {length start : Nat} {inner node : Tree} {ls rest : List Lexeme}
    (h : closing length start inner ls = .ok (node, rest)) :
    ∃ s, ls = ⟨.closeParen, s⟩ :: rest ∧ node = inner.inSpan ⟨start, s.stop⟩ := by
  unfold closing at h
  split at h
  · rename_i s rest
    cases h
    exact ⟨s, rfl, rfl⟩
  · cases h

/-- Where the operands inside parentheses and after a minus sign are read, operands are. -/
theorem Reads.operand {length n : Nat} (inside : ∀ m, n = m + 1 → Reads (unary length m) m .unary) :
    Reads (unary length n) n .unary where
  sound := by
    intro ls rest node readable parsed
    cases ls with
    | nil =>
        unfold unary at parsed
        cases parsed
    | cons l later =>
        -- What reads an operand is the same function for all of them.
        have leaf : l.token.IsOperand → ∃ used, l :: later = used ++ rest ∧ Spells n .unary used node := by
          intro operand
          have first : Readable ([l] ++ later) := readable
          obtain ⟨node', parsed', -, spelled⟩ := unary_operand operand (readable_append.mp first).1 later
          rw [parsed'] at parsed
          cases parsed
          exact ⟨[l], rfl, .primary spelled⟩
        obtain ⟨t, s⟩ := l
        cases t with
        | literal v => exact leaf trivial
        | path text => exact leaf trivial
        | closeParen =>
            unfold unary at parsed
            cases parsed
        | op o =>
            cases o with
            | sub =>
                cases n with
                | zero =>
                    unfold unary at parsed
                    cases parsed
                | succ m =>
                    unfold unary at parsed
                    obtain ⟨⟨inner, rest'⟩, below, follows⟩ := bind_eq_ok.mp parsed
                    cases follows
                    obtain ⟨us, rfl, spelled⟩ := (inside m rfl).sound (readable_cons readable) below
                    exact ⟨⟨.op .sub, s⟩ :: us, rfl, .minus s spelled⟩
            | _ =>
                unfold unary at parsed
                cases parsed
        | openParen =>
            cases n with
            | zero =>
                unfold unary at parsed
                cases parsed
            | succ m =>
                unfold unary at parsed
                obtain ⟨⟨inner, rest'⟩, below, follows⟩ := bind_eq_ok.mp parsed
                obtain ⟨us, rfl, spelled⟩ := (inside m rfl).above.sound (readable_cons readable) below
                obtain ⟨s', rfl, rfl⟩ := closing_eq_ok follows
                exact ⟨⟨.openParen, s⟩ :: (us ++ [⟨.closeParen, s'⟩]), by simp, .primary (.parentheses s s' spelled)⟩
  complete := by
    intro used rest c readable derives low _
    rcases derives.unary_cases with ⟨t, operand, eq, rfl⟩ | ⟨m, ts, rfl, eq, within⟩ |
      ⟨m, ts, a, rfl, eq, rfl, within⟩
    · obtain ⟨l, rfl, rfl⟩ := List.map_eq_singleton_iff.mp eq
      obtain ⟨node, parsed, shows, -⟩ := unary_operand operand readable rest
      exact ⟨node, parsed, shows⟩
    · obtain ⟨⟨t, s⟩, later, rfl, rfl, after⟩ := List.map_eq_cons_iff.mp eq
      obtain ⟨us, vs, rfl, rfl, last⟩ := List.map_eq_append_iff.mp after
      obtain ⟨⟨t, s'⟩, rfl, rfl⟩ := List.map_eq_singleton_iff.mp last
      have readable' := (readable_append.mp (readable_cons readable)).1
      have ends : ¬ StartsWith Part.comparison.continues (tokens (⟨.closeParen, s'⟩ :: rest)) := id
      obtain ⟨inner, parsed, shows⟩ := (inside m rfl).above.complete readable' within low ends
      refine ⟨inner.inSpan ⟨s.start, s'.stop⟩, ?_, shows.inSpan _⟩
      rw [List.cons_append, List.append_assoc]
      unfold unary
      simp only [List.cons_append, List.nil_append, parsed]
      rfl
    · obtain ⟨⟨t, s⟩, us, rfl, rfl, rfl⟩ := List.map_eq_cons_iff.mp eq
      obtain ⟨inner, parsed, shows⟩ :=
        (inside m rfl).complete (readable_cons readable) within low (not_startsWith_unary (tokens rest))
      refine ⟨Tree.ofNegation inner ⟨s.start, inner.span.stop⟩, ?_, shows.negation _⟩
      rw [List.cons_append]
      unfold unary
      simp only [parsed]
      rfl

/-- **The parser reads operands under their minus signs**, with as many parentheses and minus signs around any
    point as the allowance says. -/
theorem reads_unary (length allowance : Nat) : Reads (unary length allowance) allowance .unary := by
  induction allowance with
  | zero => exact .operand fun m h => nomatch h
  | succ n ih =>
      refine .operand fun m h => ?_
      cases h
      exact ih

/-! ## Sources -/

/-- No tokens have the form of a part. -/
theorem Derives.ne_nil {n : Nat} {p : Part} {ts : List Token} {a : Outline} (h : Derives n p ts a) : ts ≠ [] := by
  induction h <;> simp_all

/-- **A tree that the parser returns is spelled** by all tokens of the source. -/
theorem parseTree_spells {ls : List Lexeme} (readable : Readable ls) {length : Nat} {node : Tree}
    (parsed : parseTree length ls = .ok node) : Spells 63 .comparison ls node := by
  unfold parseTree at parsed
  split at parsed
  · cases parsed
  · obtain ⟨⟨t, rest⟩, first, follows⟩ := bind_eq_ok.mp parsed
    obtain ⟨used, rfl, spelled⟩ := (reads_unary length 63).above.sound readable first
    cases rest with
    | nil =>
        cases follows
        rwa [List.append_nil]
    | cons l rest => cases follows

/-- The parser returns a tree for tokens that have the form of an expression. -/
theorem parseTree_of_derives {ls : List Lexeme} (readable : Readable ls) (length : Nat) {a : Outline}
    (derives : Derives 63 .comparison (tokens ls) a) (low : a.Low maxHeight) :
    ∃ node, parseTree length ls = .ok node ∧ node.Shows a := by
  have some : ¬ ls.isEmpty = true := fun none => derives.ne_nil (by simpa using none)
  have stop : ¬ StartsWith Part.comparison.continues (tokens []) := id
  obtain ⟨node, parsed, shows⟩ := (reads_unary length 63).above.complete readable derives low stop
  rw [List.append_nil] at parsed
  refine ⟨node, ?_, shows⟩
  rw [parseTree, if_neg some]
  simp only [maxNesting, Nat.add_one_sub_one, parsed]
  rfl

/-- An expression is a source whose tokens are read as a tree. -/
theorem parse_eq_ok {source : String} {e : Expression} (h : Expression.parse source = .ok e) :
    ∃ ls, lex source = .ok ls ∧ parseTree source.toList.length ls = .ok e.tree ∧ e.source = source := by
  unfold Expression.parse at h
  split at h
  · cases h
  · rename_i ls lexed
    split at h
    · cases h
    · rename_i tree parsed
      cases h
      exact ⟨ls, lexed, parsed, rfl⟩

theorem parse_of_parseTree {source : String} {ls : List Lexeme} {t : Tree} (lexed : lex source = .ok ls)
    (read : parseTree source.toList.length ls = .ok t) : Expression.parse source = .ok ⟨source, t⟩ := by
  simp only [Expression.parse, lexed, read]

/-- The tree of an expression is spelled by the tokens of its source. -/
theorem spells_of_parse {source : String} {e : Expression} (h : Expression.parse source = .ok e) :
    ∃ ls, lex source = .ok ls ∧ Spells 63 .comparison ls e.tree ∧ e.source = source := by
  obtain ⟨ls, lexed, read, same⟩ := parse_eq_ok h
  exact ⟨ls, lexed, parseTree_spells (readable_of_lex lexed) read, same⟩

/-- A source whose tokens have the form of an expression is one. -/
theorem parse_of_derives {source : String} {ls : List Lexeme} {a : Outline} (lexed : lex source = .ok ls)
    (derives : Derives 63 .comparison (tokens ls) a) (low : a.Low maxHeight) :
    ∃ node, Expression.parse source = .ok ⟨source, node⟩ ∧ node.Shows a := by
  obtain ⟨node, read, shows⟩ := parseTree_of_derives (readable_of_lex lexed) source.toList.length derives low
  exact ⟨node, parse_of_parseTree lexed read, shows⟩

/-- **The parser accepts exactly the grammar.** For the tokens of any source, it returns a tree if and only if
    all of them have the form of an expression, with at most 63 parentheses and minus signs around any point and
    no operator whose tree is higher than 256. The tree, apart from places, is then that of the derivation, and
    no derivation, of whatever nesting and height, has another one. -/
theorem parseTree_iff_derives {source : String} {ls : List Lexeme} (lexed : lex source = .ok ls) :
    (∀ a, (∃ node, parseTree source.toList.length ls = .ok node ∧ node.outline = a) ↔
      Derives 63 .comparison (tokens ls) a ∧ a.Low 256) ∧
    ∀ n m a b, Derives n .comparison (tokens ls) a → Derives m .comparison (tokens ls) b → a = b := by
  have readable := readable_of_lex lexed
  refine ⟨fun a => ⟨?_, ?_⟩, fun n m a b left right => left.unique right⟩
  · rintro ⟨node, parsed, rfl⟩
    have spelled := parseTree_spells readable parsed
    exact ⟨spelled.derives, spelled.low⟩
  · rintro ⟨derives, low⟩
    obtain ⟨node, parsed, shows⟩ := parseTree_of_derives readable source.toList.length derives low
    exact ⟨node, parsed, shows.outline⟩

/-- Differences group to the left, and the tokens of one have no other tree. -/
theorem parseTree_iff_derives_difference :
    let left := Outline.binary .sub (.leaf (.path "a")) (.leaf (.path "b"))
    let difference := Outline.binary .sub left (.leaf (.literal (.int 1)))
    ∃ ls, lex "a - b - 1" = .ok ls ∧ Derives 63 .comparison (tokens ls) difference ∧
      ∀ n b, Derives n .comparison (tokens ls) b → b = difference := by
  intro left difference
  let ls : List Lexeme := [⟨.path "a", ⟨0, 1⟩⟩, ⟨.op .sub, ⟨2, 3⟩⟩, ⟨.path "b", ⟨4, 5⟩⟩, ⟨.op .sub, ⟨6, 7⟩⟩,
    ⟨.literal (.int 1), ⟨8, 9⟩⟩]
  have lexed : lex "a - b - 1" = .ok ls := rfl
  have shown : (parseTree "a - b - 1".toList.length ls).toOption.map Tree.outline = some difference := by
    decide +kernel
  obtain ⟨accepted, unique⟩ := parseTree_iff_derives lexed
  have derived : Derives 63 .comparison (tokens ls) difference := by
    cases parsed : parseTree "a - b - 1".toList.length ls with
    | error e =>
        rw [parsed] at shown
        cases shown
    | ok node =>
        rw [parsed] at shown
        exact ((accepted difference).mp ⟨node, parsed, Option.some.inj shown⟩).1
  exact ⟨ls, lexed, derived, fun n b h => unique n 63 b difference h derived⟩

end Rulebook.Expression

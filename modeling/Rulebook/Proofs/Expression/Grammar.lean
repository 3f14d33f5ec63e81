import Rulebook.Expression.Token

/-!
# `Rulebook.Proofs.Expression.Grammar` — the grammar of expressions, apart from any parser

```text
comparison := sum | sum ("==" | "!=" | "<" | ">" | "<=" | ">=") sum
sum        := product | sum ("+" | "-") product
product    := unary | product ("*" | "/" | "%") unary
unary      := primary | "-" unary
primary    := NUMBER | STRING | "true" | "false" | PATH | "(" comparison ")"
```

Sums and products recur on the left, so that their operators group to the left. `Derives n part tokens tree`
says that the tokens have the form of the part, with at most `n` parentheses and minus signs around any point,
and which tree that gives. The tree is an `Outline`: parentheses leave no trace in it, and neither do places.

* `derives_chain_iff` — a sum or product as its first operand and the operators and operands after it;
* `Determined` — where a part ends and which tree it has follow from the tokens, as long as what comes after the
  part could not go on with it;
* `Derives.unique` — **the grammar is unambiguous**, whatever the nesting.
-/

namespace Rulebook.Expression

/-! ## Outlines -/

/-- A syntax tree without the places of its parts. The operands are tokens. -/
inductive Outline where
  | leaf (t : Token)
  | negation (inner : Outline)
  | binary (op : BinaryOp) (left right : Outline)
  deriving DecidableEq

namespace Outline

/-- The number of trees on the longest way down. -/
def height : Outline → Nat
  | leaf _ => 1
  | negation t => t.height + 1
  | binary _ l r => max l.height r.height + 1

/-- No operator between two operands has a tree higher than the limit. -/
def Low (limit : Nat) : Outline → Prop
  | leaf _ => True
  | negation t => t.Low limit
  | binary op l r => l.Low limit ∧ r.Low limit ∧ (binary op l r).height ≤ limit

end Outline

/-! ## Derivations -/

/-- A token that is an operand by itself. -/
def Token.IsOperand : Token → Prop
  | .literal _ | .path _ => True
  | _ => False

/-- The levels of the grammar with any number of operators of one kind. -/
inductive Level where
  | product
  | sum

/-- The operators of a level. -/
def Level.admits : Level → BinaryOp → Bool
  | product => BinaryOp.isMultiplicative
  | sum => BinaryOp.isAdditive

/-- The parts of the grammar. -/
inductive Part where
  | primary
  | unary
  | chain (l : Level)
  | comparison

/-- What stands between the operators of a level. -/
def Level.operand : Level → Part
  | product => .unary
  | sum => .chain .product

/-- Tokens of the form of a part, with at most as many parentheses and minus signs around any point as the
    number says, and the tree of them. -/
inductive Derives : Nat → Part → List Token → Outline → Prop
  | operand {n : Nat} {t : Token} : t.IsOperand → Derives n .primary [t] (.leaf t)
  | parentheses {n : Nat} {ts : List Token} {a : Outline} :
      Derives n .comparison ts a → Derives (n + 1) .primary (.openParen :: (ts ++ [.closeParen])) a
  | primary {n : Nat} {ts : List Token} {a : Outline} : Derives n .primary ts a → Derives n .unary ts a
  | minus {n : Nat} {ts : List Token} {a : Outline} :
      Derives n .unary ts a → Derives (n + 1) .unary (.op .sub :: ts) (.negation a)
  | single {n : Nat} {l : Level} {ts : List Token} {a : Outline} :
      Derives n l.operand ts a → Derives n (.chain l) ts a
  | chain {n : Nat} {l : Level} {ts us : List Token} {a b : Outline} {op : BinaryOp} :
      Derives n (.chain l) ts a → l.admits op → Derives n l.operand us b →
      Derives n (.chain l) (ts ++ .op op :: us) (.binary op a b)
  | sum {n : Nat} {ts : List Token} {a : Outline} : Derives n (.chain .sum) ts a → Derives n .comparison ts a
  | comparison {n : Nat} {ts us : List Token} {a b : Outline} {op : BinaryOp} :
      Derives n (.chain .sum) ts a → op.isComparison → Derives n (.chain .sum) us b →
      Derives n .comparison (ts ++ .op op :: us) (.binary op a b)

/-- Deeper nesting may be allowed. -/
theorem Derives.mono {n m : Nat} {p : Part} {ts : List Token} {a : Outline} (h : Derives n p ts a) (le : n ≤ m) :
    Derives m p ts a := by
  induction h generalizing m with
  | operand h => exact .operand h
  | parentheses _ ih =>
      obtain ⟨k, rfl⟩ := Nat.exists_eq_add_of_le' le
      exact .parentheses (ih (Nat.le_add_left _ _))
  | primary _ ih => exact .primary (ih le)
  | minus _ ih =>
      obtain ⟨k, rfl⟩ := Nat.exists_eq_add_of_le' le
      exact .minus (ih (Nat.le_add_left _ _))
  | single _ ih => exact .single (ih le)
  | chain _ admits _ ih ih' => exact .chain (ih le) admits (ih' le)
  | sum _ ih => exact .sum (ih le)
  | comparison _ compares _ ih ih' => exact .comparison (ih le) compares (ih' le)

/-- What an operand under its minus signs can be. -/
theorem Derives.unary_cases {n : Nat} {ts : List Token} {a : Outline} (h : Derives n .unary ts a) :
    (∃ t, t.IsOperand ∧ ts = [t] ∧ a = .leaf t) ∨
    (∃ m us, n = m + 1 ∧ ts = .openParen :: (us ++ [.closeParen]) ∧ Derives m .comparison us a) ∨
    (∃ m us b, n = m + 1 ∧ ts = .op .sub :: us ∧ a = .negation b ∧ Derives m .unary us b) := by
  cases h with
  | primary h =>
      cases h with
      | operand h => exact .inl ⟨_, h, rfl, rfl⟩
      | parentheses h => exact .inr (.inl ⟨_, _, rfl, rfl, h⟩)
  | minus h => exact .inr (.inr ⟨_, _, _, rfl, rfl, rfl, h⟩)

/-! ## Chains -/

/-- The operators and operands of a level that follow a tree `a`, and the tree that they give with it. -/
inductive Links (n : Nat) (l : Level) : Outline → List Token → Outline → Prop
  | nil {a : Outline} : Links n l a [] a
  | cons {a b c : Outline} {op : BinaryOp} {us vs : List Token} :
      l.admits op → Derives n l.operand us b → Links n l (.binary op a b) vs c →
      Links n l a (.op op :: (us ++ vs)) c

/-- One more operator and operand at the end. -/
theorem Links.concat {n : Nat} {l : Level} {a b c : Outline} {ts us : List Token} {op : BinaryOp}
    (h : Links n l a ts b) (admits : l.admits op) (last : Derives n l.operand us c) :
    Links n l a (ts ++ .op op :: us) (.binary op b c) := by
  induction h with
  | nil => simpa using Links.cons admits last .nil
  | cons first operand _ ih => simpa using Links.cons first operand ih

/-- Operators and operands after a sum or product belong to it. -/
theorem Links.derives {n : Nat} {l : Level} {a b : Outline} {ts us : List Token} (h : Links n l a us b)
    (left : Derives n (.chain l) ts a) : Derives n (.chain l) (ts ++ us) b := by
  induction h generalizing ts with
  | nil => simpa using left
  | cons admits operand _ ih => simpa using ih (.chain left admits operand)

/-- **A sum or product is a first operand and what follows it.** -/
theorem derives_chain_iff {n : Nat} {l : Level} {ts : List Token} {b : Outline} :
    Derives n (.chain l) ts b ↔ ∃ us a vs, ts = us ++ vs ∧ Derives n l.operand us a ∧ Links n l a vs b := by
  constructor
  · intro h
    generalize part : Part.chain l = p at h
    induction h with
    | single h =>
        cases part
        exact ⟨_, _, [], (List.append_nil _).symm, h, .nil⟩
    | chain _ admits last ih _ =>
        cases part
        obtain ⟨us, a, vs, rfl, first, links⟩ := ih rfl
        exact ⟨us, a, _, List.append_assoc .., first, links.concat admits last⟩
    | _ => cases part
  · rintro ⟨us, a, vs, rfl, first, links⟩
    exact links.derives (.single first)

/-! ## Where parts end -/

/-- The operators that a part could go on with. -/
def Part.continues : Part → BinaryOp → Bool
  | primary | unary => fun _ => false
  | chain .product => BinaryOp.isMultiplicative
  | chain .sum => fun op => op.isMultiplicative || op.isAdditive
  | comparison => fun _ => true

/-- The tokens start with an operator of those that are given. -/
def StartsWith (among : BinaryOp → Bool) : List Token → Prop
  | .op op :: _ => among op
  | _ => False

/-- A chain goes on with the operators of its level and with those that its last operand goes on with. -/
theorem Level.continues_eq (l : Level) (op : BinaryOp) :
    (Part.chain l).continues op = (l.operand.continues op || l.admits op) := by
  cases l <;> rfl

/-- An operator of a level ends the operand before it. -/
theorem Level.admits_ends {l : Level} {op : BinaryOp} (h : l.admits op) : l.operand.continues op = false := by
  cases l with
  | product => rfl
  | sum => cases op <;> first | rfl | cases h

theorem sum_continues_of_isComparison {op : BinaryOp} (h : op.isComparison) :
    (Part.chain .sum).continues op = false := by
  cases op <;> first | rfl | cases h

/-- A unary does not go on with any operator. -/
theorem not_startsWith_unary (ts : List Token) : ¬ StartsWith Part.unary.continues ts := by
  intro starts
  unfold StartsWith at starts
  split at starts <;> cases starts

theorem StartsWith.mono {among others : BinaryOp → Bool} (h : ∀ op, among op → others op) {ts : List Token}
    (starts : StartsWith among ts) : StartsWith others ts := by
  unfold StartsWith at *
  split at starts
  · exact h _ starts
  · cases starts

/-! ## Unambiguity -/

/-- Where a part ends and which tree it has follow from the tokens, if what comes after it does not go on with
    it. -/
def Determined (n : Nat) (p : Part) : Prop :=
  ∀ ⦃ts us rest others : List Token⦄ ⦃a b : Outline⦄, Derives n p ts a → Derives n p us b →
    ¬ StartsWith p.continues rest → ¬ StartsWith p.continues others → ts ++ rest = us ++ others →
    ts = us ∧ a = b

section Chain

variable {n : Nat} {l : Level} {a b c : Outline} {ts us rest others : List Token}

/-- What follows an operand of a chain does not go on with that operand. -/
theorem Links.ends (h : Links n l a ts b) (stop : ¬ StartsWith (Part.chain l).continues rest) :
    ¬ StartsWith l.operand.continues (ts ++ rest) := by
  cases h with
  | nil => exact fun starts => stop (starts.mono fun op hop => by rw [l.continues_eq, hop, Bool.true_or])
  | cons admits _ _ => exact fun starts => Bool.eq_false_iff.mp (Level.admits_ends admits) starts

/-- A chain goes on with the operators of its level. -/
theorem startsWith_admitted {op : BinaryOp} (admits : l.admits op) (ts : List Token) :
    StartsWith (Part.chain l).continues (.op op :: ts) := by
  show (Part.chain l).continues op = true
  rw [l.continues_eq, admits, Bool.or_true]

/-- With operands that are determined, what follows a tree in a chain is. -/
theorem Links.determined (operands : Determined n l.operand) (left : Links n l a ts b) (right : Links n l a us c)
    (stop : ¬ StartsWith (Part.chain l).continues rest) (stop' : ¬ StartsWith (Part.chain l).continues others)
    (eq : ts ++ rest = us ++ others) : ts = us ∧ b = c := by
  induction left generalizing us c with
  | nil =>
      cases right with
      | nil => exact ⟨rfl, rfl⟩
      | cons admits _ _ =>
          -- Where one chain ends, no operator of the level can stand for the other to go on with.
          rw [List.nil_append] at eq
          exact absurd (eq ▸ startsWith_admitted admits _) stop
  | cons admits operand left ih =>
      cases right with
      | nil =>
          rw [List.nil_append] at eq
          exact absurd (eq ▸ startsWith_admitted admits _) stop'
      | cons _ operand' right =>
          simp only [List.cons_append, List.append_assoc, List.cons.injEq, Token.op.injEq] at eq
          obtain ⟨rfl, eq⟩ := eq
          obtain ⟨rfl, rfl⟩ := operands operand operand' (left.ends stop) (right.ends stop') eq
          obtain ⟨rfl, rfl⟩ := ih right (List.append_cancel_left eq)
          exact ⟨rfl, rfl⟩

end Chain

theorem Determined.chain {n : Nat} {l : Level} (h : Determined n l.operand) : Determined n (.chain l) := by
  intro ts us rest others a b left right stop stop' eq
  obtain ⟨ts, a, vs, rfl, first, links⟩ := derives_chain_iff.mp left
  obtain ⟨us, a', vs', rfl, first', links'⟩ := derives_chain_iff.mp right
  rw [List.append_assoc, List.append_assoc] at eq
  obtain ⟨rfl, rfl⟩ := h first first' (links.ends stop) (links'.ends stop') eq
  obtain ⟨rfl, rfl⟩ := links.determined h links' stop stop' (List.append_cancel_left eq)
  exact ⟨rfl, rfl⟩

theorem Determined.comparison {n : Nat} (h : Determined n (.chain .sum)) : Determined n .comparison := by
  -- Neither an operator that compares nor what ends a comparison goes on with a sum.
  have weaker : ∀ {rest : List Token}, ¬ StartsWith Part.comparison.continues rest →
      ¬ StartsWith (Part.chain .sum).continues rest := fun stop starts => stop (starts.mono fun _ _ => rfl)
  have compared : ∀ {op : BinaryOp} (rest : List Token), op.isComparison →
      ¬ StartsWith (Part.chain .sum).continues (.op op :: rest) := fun rest compares =>
    Bool.eq_false_iff.mp (sum_continues_of_isComparison compares)
  intro ts us rest others a b left right stop stop' eq
  cases left with
  | sum left =>
      cases right with
      | sum right => exact h left right (weaker stop) (weaker stop') eq
      | comparison right compares last =>
          rw [List.append_assoc] at eq
          obtain ⟨rfl, -⟩ := h left right (weaker stop) (compared _ compares) eq
          exact absurd (List.append_cancel_left eq ▸ rfl) stop
  | comparison left compares last =>
      rw [List.append_assoc] at eq
      cases right with
      | sum right =>
          obtain ⟨rfl, -⟩ := h left right (compared _ compares) (weaker stop') eq
          exact absurd (List.append_cancel_left eq ▸ rfl) stop'
      | comparison right compares' last' =>
          rw [List.append_assoc] at eq
          obtain ⟨rfl, rfl⟩ := h left right (compared _ compares) (compared _ compares') eq
          have after := List.append_cancel_left eq
          simp only [List.cons_append, List.cons.injEq, Token.op.injEq] at after
          obtain ⟨rfl, after⟩ := after
          obtain ⟨rfl, rfl⟩ := h last last' (weaker stop) (weaker stop') after
          exact ⟨rfl, rfl⟩

/-- The parts above a unary are determined where it is. -/
theorem Determined.above {n : Nat} (h : Determined n .unary) : Determined n .comparison :=
  Determined.comparison (Determined.chain (Determined.chain h))

/-- The first token of a unary says what it is. -/
theorem determined_unary (n : Nat) : Determined n .unary := by
  -- Parentheses and minus signs have less nesting inside, so the induction is on the nesting that is allowed.
  induction n with
  | zero =>
      intro ts us rest others a b left right _ _ eq
      rcases left.unary_cases with ⟨t, _, rfl, rfl⟩ | ⟨m, _, h, _⟩ | ⟨m, _, _, h, _⟩
      · rcases right.unary_cases with ⟨t', _, rfl, rfl⟩ | ⟨m, _, h, _⟩ | ⟨m, _, _, h, _⟩
        · obtain ⟨rfl, -⟩ := List.cons.inj eq
          exact ⟨rfl, rfl⟩
        · cases h
        · cases h
      · cases h
      · cases h
  | succ n ih =>
      intro ts us rest others a b left right _ _ eq
      rcases left.unary_cases with ⟨t, operand, rfl, rfl⟩ | ⟨m, ts, h, rfl, left⟩ | ⟨m, ts, a, h, rfl, rfl, left⟩
      · rcases right.unary_cases with ⟨t', _, rfl, rfl⟩ | ⟨_, us, _, rfl, _⟩ | ⟨_, us, _, _, rfl, _⟩
        · obtain ⟨rfl, -⟩ := List.cons.inj eq
          exact ⟨rfl, rfl⟩
        · obtain ⟨rfl, -⟩ := List.cons.inj eq
          exact operand.elim
        · obtain ⟨rfl, -⟩ := List.cons.inj eq
          exact operand.elim
      · cases h
        rcases right.unary_cases with ⟨t', operand, rfl, rfl⟩ | ⟨_, us, h, rfl, right⟩ | ⟨_, us, _, _, rfl, _⟩
        · obtain ⟨rfl, -⟩ := List.cons.inj eq
          exact operand.elim
        · cases h
          simp only [List.cons_append, List.append_assoc, List.cons.injEq, true_and] at eq
          obtain ⟨rfl, rfl⟩ := Determined.above ih left right id id eq
          exact ⟨rfl, rfl⟩
        · cases eq
      · cases h
        rcases right.unary_cases with ⟨t', operand, rfl, rfl⟩ | ⟨_, us, _, rfl, _⟩ | ⟨_, us, b, h, rfl, rfl, right⟩
        · obtain ⟨rfl, -⟩ := List.cons.inj eq
          exact operand.elim
        · cases eq
        · cases h
          simp only [List.cons_append, List.cons.injEq, true_and] at eq
          obtain ⟨rfl, rfl⟩ := ih left right (not_startsWith_unary rest) (not_startsWith_unary others) eq
          exact ⟨rfl, rfl⟩

/-- **The grammar is unambiguous**: tokens have one tree at most, however deep the nesting may be. -/
theorem Derives.unique {n m : Nat} {ts : List Token} {a b : Outline} (left : Derives n .comparison ts a)
    (right : Derives m .comparison ts b) : a = b :=
  have determined : Determined (max n m) .comparison := Determined.above (determined_unary _)
  have stop : ¬ StartsWith Part.comparison.continues [] := id
  (determined (left.mono (Nat.le_max_left n m)) (right.mono (Nat.le_max_right n m)) stop stop rfl).2

end Rulebook.Expression

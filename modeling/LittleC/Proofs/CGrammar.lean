import LittleC.Proofs.CToken

/-! C's grammar of expressions, and that it is unambiguous.

The levels are numbered from the loosest: 0 assignment, 1 equality, 2 relational,
3 additive, 4 multiplicative, 5 primary. A parse is a tree with its parentheses kept, and
`Derives k ts t` says that the tokens `ts` are the parse `t` at level `k`.

`Derives.unique`: the same tokens have one parse. The operator at the root of a parse is
the last of the loosest ones outside parentheses: everything to its left binds at least
as tightly and everything to its right more tightly, so of two such operators neither can
stand to the left of the other. -/
namespace LittleC.C

/-- A parse of an expression. -/
inductive Tree where
  | binary (op : BinaryOp) (left right : Tree)
  | name (name : String)
  | float (text : String)
  | double (text : String)
  | integer (text : String)
  | string (body : String)
  | boolean (value : Bool)
  | call (callee : String) (arguments : List Tree)
  | assign (target : String) (value : Tree)
  | group (inner : Tree)

mutual
/-- The expression of a parse, without its parentheses. -/
def Tree.erase : Tree → Expr
  | .binary op left right => .binary op left.erase right.erase
  | .name x => .symbol x
  | .float text => .float text
  | .double text => .double text
  | .integer text => .integer text
  | .string body => .string body
  | .boolean value => .boolean value
  | .call callee arguments => .call callee (Tree.eraseAll arguments)
  | .assign target value => .assign target value.erase
  | .group inner => inner.erase

def Tree.eraseAll : List Tree → List Expr
  | [] => []
  | t :: rest => t.erase :: Tree.eraseAll rest
end

/-- The binary operators with their levels. -/
def operators : List (Nat × String × BinaryOp) :=
  [(1, "==", .equals), (2, "<", .lessThan), (2, ">", .greaterThan), (3, "+", .plus),
   (3, "-", .minus), (4, "*", .multiply), (4, "/", .divide)]

/-- The mark is a binary operator of the level. -/
def Operator (k : Nat) (s : String) (op : BinaryOp) : Prop :=
  (k, s, op) ∈ operators

instance (k : Nat) (s : String) (op : BinaryOp) : Decidable (Operator k s op) :=
  inferInstanceAs (Decidable (_ ∈ operators))

def truth : Bool → String
  | true => "true"
  | false => "false"

/-- A word that can name something. The two truth values cannot. -/
def IsIdentifier (name : String) : Prop :=
  IsWord name.toList ∧ ∀ b, name ≠ truth b

/-- The literal of a number and the sign in front of it. -/
inductive Numeral (sign text : String) : Tree → Prop where
  | integer : IsDigits text.toList → Numeral sign text (.integer (sign ++ text))
  | double : IsDecimal text.toList → Numeral sign text (.double (sign ++ text))
  | float : IsSuffixed text.toList → Numeral sign text (.float (sign ++ text))

mutual
/-- The tokens are this parse at a level. -/
inductive Derives : Nat → List Token → Tree → Prop where
  | assign {x : String} {vs : List Token} {v : Tree} : IsIdentifier x → Derives 0 vs v →
      Derives 0 (.word x :: .mark "=" :: vs) (.assign x v)
  | binary {k : Nat} {s : String} {op : BinaryOp} {ls rs : List Token} {l r : Tree} :
      Operator k s op → Derives k ls l → Derives (k + 1) rs r →
      Derives k (ls ++ .mark s :: rs) (.binary op l r)
  | tighter {k : Nat} {ts : List Token} {t : Tree} : k < 5 → Derives (k + 1) ts t → Derives k ts t
  | primary {ts : List Token} {t : Tree} : Primary ts t → Derives 5 ts t

inductive Primary : List Token → Tree → Prop where
  | name {x : String} : IsIdentifier x → Primary [.word x] (.name x)
  | number {text : String} {t : Tree} : Numeral "" text t → Primary [.number text] t
  | negative {text : String} {t : Tree} : Numeral "-" text t →
      Primary [.mark "-", .number text] t
  | string (body : String) : Primary [.string body] (.string body)
  | boolean (b : Bool) : Primary [.word (truth b)] (.boolean b)
  | callNone {f : String} : IsIdentifier f → Primary [.word f, .mark "(", .mark ")"] (.call f [])
  | call {f : String} {ts : List Token} {args : List Tree} : IsIdentifier f → Arguments ts args →
      Primary (.word f :: .mark "(" :: (ts ++ [.mark ")"])) (.call f args)
  | group {ts : List Token} {t : Tree} : Derives 0 ts t →
      Primary (.mark "(" :: (ts ++ [.mark ")"])) (.group t)

/-- Arguments of a call, one or more, with commas between them. -/
inductive Arguments : List Token → List Tree → Prop where
  | one {ts : List Token} {t : Tree} : Derives 0 ts t → Arguments ts [t]
  | more {ts us : List Token} {t : Tree} {args : List Tree} : Derives 0 ts t → Arguments us args →
      Arguments (ts ++ .mark "," :: us) (t :: args)
end

/-- The text is this parse of an expression. -/
def Parses (text : String) (t : Tree) : Prop :=
  ∃ ts, Lexed text.toList ts ∧ Derives 0 ts t

/-! ### Parentheses -/

def weight (t : Token) : Int :=
  if t = .mark "(" then 1 else if t = .mark ")" then -1 else 0

/-- How many more parentheses open in the tokens than close. -/
def nesting : List Token → Int
  | [] => 0
  | t :: rest => weight t + nesting rest

theorem nesting_append (a b : List Token) : nesting (a ++ b) = nesting a + nesting b := by
  induction a with
  | nil => simp [nesting]
  | cons t rest ih => simp only [List.cons_append, nesting, ih, Int.add_assoc]

@[simp] theorem weight_word (s : String) : weight (.word s) = 0 := by simp [weight]

@[simp] theorem weight_number (s : String) : weight (.number s) = 0 := by simp [weight]

@[simp] theorem weight_string (s : String) : weight (.string s) = 0 := by simp [weight]

@[simp] theorem weight_open : weight (.mark "(") = 1 := by decide

@[simp] theorem weight_close : weight (.mark ")") = -1 := by decide

/-- Every parenthesis closes, and none that did not open. -/
structure Balanced (ts : List Token) : Prop where
  nesting_eq : nesting ts = 0
  nonneg : ∀ a b, ts = a ++ b → 0 ≤ nesting a

namespace Balanced

theorem nil : Balanced [] :=
  ⟨rfl, fun a b h => by
    have : a = [] := (List.append_eq_nil_iff.mp h.symm).1
    simp [this, nesting]⟩

theorem append {ts us : List Token} (ht : Balanced ts) (hu : Balanced us) : Balanced (ts ++ us) := by
  refine ⟨by rw [nesting_append, ht.nesting_eq, hu.nesting_eq]; rfl, fun a b h => ?_⟩
  rcases List.append_eq_append_iff.mp h with ⟨m, rfl, hm⟩ | ⟨m, hm, rfl⟩
  · rw [nesting_append, ht.nesting_eq, Int.zero_add]
    exact hu.nonneg m b hm
  · exact ht.nonneg a m hm

theorem cons {t : Token} {ts : List Token} (ht : weight t = 0) (h : Balanced ts) :
    Balanced (t :: ts) := by
  refine ⟨by rw [nesting, ht, h.nesting_eq]; rfl, fun a b heq => ?_⟩
  cases a with
  | nil => exact Int.le_refl 0
  | cons u a =>
    obtain ⟨rfl, htail⟩ := List.cons.inj heq
    rw [nesting, ht, Int.zero_add]
    exact h.nonneg a b htail

/-- Balanced tokens in parentheses. -/
theorem wrap {ts : List Token} (h : Balanced ts) : Balanced (.mark "(" :: (ts ++ [.mark ")"])) := by
  refine ⟨by simp [nesting, nesting_append, h.nesting_eq], fun a b heq => ?_⟩
  cases a with
  | nil => exact Int.le_refl 0
  | cons u a =>
    obtain ⟨rfl, htail⟩ := List.cons.inj heq
    rw [nesting, weight_open]
    rcases List.append_eq_append_iff.mp htail with ⟨m, rfl, hm⟩ | ⟨m, hm, rfl⟩
    · cases m with
      | nil => simp [h.nesting_eq]
      | cons v m =>
        obtain ⟨rfl, hnil⟩ := List.cons.inj hm
        obtain ⟨rfl, -⟩ := List.append_eq_nil_iff.mp hnil.symm
        simp [nesting_append, nesting, h.nesting_eq]
    · have := h.nonneg a m hm
      omega

end Balanced

theorem operators_marks : ∀ o ∈ operators, weight (.mark o.2.1) = 0 ∧
    o.2.1 ≠ "(" ∧ o.2.1 ≠ ")" ∧ o.2.1 ≠ "," ∧ o.2.1 ≠ "=" := by
  decide

theorem Operator.weight_eq {k : Nat} {s : String} {op : BinaryOp} (h : Operator k s op) :
    weight (.mark s) = 0 :=
  (operators_marks _ h).1

mutual
theorem Derives.balanced {k : Nat} {ts : List Token} {t : Tree} : Derives k ts t → Balanced ts
  | .assign _ h => (h.balanced.cons (by decide)).cons (weight_word _)
  | .binary hs hl hr => hl.balanced.append (hr.balanced.cons hs.weight_eq)
  | .tighter _ h => h.balanced
  | .primary h => h.balanced

theorem Primary.balanced {ts : List Token} {t : Tree} : Primary ts t → Balanced ts
  | .name _ => Balanced.nil.cons (weight_word _)
  | .number _ => Balanced.nil.cons (weight_number _)
  | .negative _ => (Balanced.nil.cons (weight_number _)).cons (by decide)
  | .string _ => Balanced.nil.cons (weight_string _)
  | .boolean _ => Balanced.nil.cons (weight_word _)
  | .callNone _ => Balanced.nil.wrap.cons (weight_word _)
  | .call _ h => h.balanced.wrap.cons (weight_word _)
  | .group h => h.balanced.wrap

theorem Arguments.balanced {ts : List Token} {args : List Tree} : Arguments ts args → Balanced ts
  | .one h => h.balanced
  | .more h hs => h.balanced.append (hs.balanced.cons (by decide))
end

/-! ### What stands outside parentheses -/

/-- The last token ends an operand, so that a minus after it is no sign. -/
def Ended (ts : List Token) : Prop :=
  ∃ init t, ts = init ++ [t] ∧ ∀ s, t = .mark s → s = ")"

theorem Ended.append {us : List Token} (h : Ended us) (ts : List Token) : Ended (ts ++ us) := by
  obtain ⟨init, t, rfl, ht⟩ := h
  exact ⟨ts ++ init, t, by simp, ht⟩

theorem Ended.cons {us : List Token} (h : Ended us) (t : Token) : Ended (t :: us) :=
  h.append [t]

theorem Ended.ne_nil {ts : List Token} (h : Ended ts) : ts ≠ [] := by
  obtain ⟨init, t, rfl, _⟩ := h
  simp

/-- The end of a list is the end of what follows any part of it. -/
theorem Ended.of_append {a m : List Token} (h : Ended (a ++ m)) (hm : m ≠ []) : Ended m := by
  obtain ⟨init, t, heq, ht⟩ := h
  obtain ⟨init', t', rfl⟩ := List.eq_nil_or_concat m |>.resolve_left hm
  rw [List.concat_eq_append, ← List.append_assoc] at heq
  obtain ⟨_, hlast⟩ := List.append_inj' heq rfl
  obtain rfl : t' = t := by simpa using hlast
  exact ⟨init', t', by simp, ht⟩

theorem Operator.not_ended {k : Nat} {s : String} {op : BinaryOp} (h : Operator k s op) (ts : List Token) :
    ¬ Ended (ts ++ [.mark s]) := by
  rintro ⟨init, t, heq, ht⟩
  obtain ⟨_, hlast⟩ := List.append_inj' heq rfl
  obtain rfl : Token.mark s = t := by simpa using hlast
  exact (operators_marks _ h).2.2.1 (ht s rfl)

theorem Primary.ended {ts : List Token} {t : Tree} (h : Primary ts t) : Ended ts := by
  have close : Ended [.mark ")"] := ⟨[], _, rfl, by simp⟩
  cases h with
  | name _ => exact ⟨[], _, rfl, by simp⟩
  | number _ => exact ⟨[], _, rfl, by simp⟩
  | negative _ => exact ⟨[_], _, rfl, by simp⟩
  | string _ => exact ⟨[], _, rfl, by simp⟩
  | boolean _ => exact ⟨[], _, rfl, by simp⟩
  | callNone _ => exact (close.cons _).cons _
  | call _ _ => exact ((close.append _).cons _).cons _
  | group _ => exact (close.append _).cons _

theorem Derives.ended {k : Nat} {ts : List Token} {t : Tree} : Derives k ts t → Ended ts
  | .assign _ h => (h.ended.cons _).cons _
  | .binary _ _ hr => (hr.ended.cons _).append _
  | .tighter _ h => h.ended
  | .primary h => h.ended

theorem Arguments.ne_nil {ts : List Token} {args : List Tree} (h : Arguments ts args) : ts ≠ [] := by
  cases h with
  | one h => exact h.ended.ne_nil
  | more _ _ => simp

/-- What a mark outside parentheses can be in an expression of a level, `a` being what
stands before it. -/
structure Outside (k : Nat) (a : List Token) (s : String) : Prop where
  comma : s ≠ ","
  assign : s = "=" → k = 0
  operator : Ended a → ∀ j op, Operator j s op → k ≤ j

def Guarded (k : Nat) (ts : List Token) : Prop :=
  ∀ a s b, ts = a ++ .mark s :: b → nesting a = 0 → Outside k a s

/-- One token after `a` and one after `c` in the same list. -/
theorem split_cases {a b c d : List Token} {x y : Token} (h : a ++ x :: b = c ++ y :: d) :
    (a = c ∧ x = y ∧ b = d) ∨ (∃ m, c = a ++ x :: m ∧ b = m ++ y :: d) ∨
      (∃ m, a = c ++ y :: m ∧ d = m ++ x :: b) := by
  rcases List.append_eq_append_iff.mp h with ⟨m, rfl, hm⟩ | ⟨m, rfl, hm⟩
  · cases m with
    | nil => exact .inl ⟨by simp, by simpa using hm⟩
    | cons z m =>
      obtain ⟨rfl, hb⟩ := List.cons.inj hm
      exact .inr (.inl ⟨m, rfl, hb⟩)
  · cases m with
    | nil =>
      obtain ⟨rfl, rfl⟩ := List.cons.inj hm
      exact .inl ⟨by simp, rfl, rfl⟩
    | cons z m =>
      obtain ⟨rfl, hd⟩ := List.cons.inj hm
      exact .inr (.inr ⟨m, rfl, hd⟩)

theorem operators_levels : ∀ o ∈ operators, 1 ≤ o.1 ∧ o.1 ≤ 4 := by
  decide

theorem operators_injective : ∀ o ∈ operators, ∀ o' ∈ operators, o.2.1 = o'.2.1 → o = o' := by
  decide

theorem Operator.level_eq {j k : Nat} {s : String} {op op' : BinaryOp} (h : Operator j s op)
    (h' : Operator k s op') : j = k ∧ op = op' := by
  have := operators_injective _ h _ h' rfl
  simp only [Prod.mk.injEq, true_and] at this
  exact this

theorem Operator.outside {k : Nat} {s : String} {op : BinaryOp} (h : Operator k s op) (a : List Token) :
    Outside k a s := by
  obtain ⟨_, _, _, hcomma, hassign⟩ := operators_marks _ h
  exact ⟨hcomma, fun hs => absurd hs hassign, fun _ j op' h' => Nat.le_of_eq (h.level_eq h').1⟩

theorem Outside.loosen {k : Nat} {a : List Token} {s : String} (h : Outside (k + 1) a s) :
    Outside k a s :=
  ⟨h.comma, fun hs => absurd (h.assign hs) (Nat.succ_ne_zero k),
    fun ha j op hj => Nat.le_of_succ_le (h.operator ha j op hj)⟩

/-- An operation is guarded at its own level if its operands are at theirs. -/
theorem Guarded.binary {k : Nat} {s : String} {op : BinaryOp} {ls rs : List Token}
    (hs : Operator k s op) (hl : Guarded k ls) (hbal : Balanced ls) (hr : Guarded (k + 1) rs) :
    Guarded k (ls ++ .mark s :: rs) := by
  intro a s' b heq hn
  rcases split_cases heq with ⟨rfl, hm, rfl⟩ | ⟨m, rfl, hm⟩ | ⟨m, hm, rfl⟩
  · obtain rfl : s = s' := by simpa using hm
    exact hs.outside ls
  · rw [nesting_append, hbal.nesting_eq, Int.zero_add, nesting, hs.weight_eq, Int.zero_add] at hn
    have ho := (hr m s' b hm hn).loosen
    refine ⟨ho.comma, ho.assign, fun ha => ?_⟩
    by_cases hnil : m = []
    · subst hnil
      exact absurd ha (hs.not_ended ls)
    · have : Ended (ls ++ [.mark s] ++ m) := by simpa using ha
      exact ho.operator (this.of_append hnil)
  · exact hl a s' m hm hn

/-- Inside parentheses nothing stands outside. -/
theorem nesting_inside {ts a b : List Token} {s : String} (h : Balanced ts)
    (heq : ts ++ [.mark ")"] = a ++ .mark s :: b) : 0 ≤ nesting a := by
  rcases split_cases heq with ⟨rfl, _⟩ | ⟨m, rfl, hm⟩ | ⟨m, rfl, _⟩
  · exact Int.le_of_eq h.nesting_eq.symm
  · simp at hm
  · exact h.nonneg a _ rfl

theorem Guarded.wrap {ts : List Token} (h : Balanced ts) (k : Nat) :
    Guarded k (.mark "(" :: (ts ++ [.mark ")"])) := by
  intro a s b heq hn
  cases a with
  | nil =>
    obtain rfl : "(" = s := by simpa using (List.cons.inj heq).1
    exact ⟨by decide, fun hs => absurd hs (by decide), fun ha => absurd rfl ha.ne_nil⟩
  | cons t a =>
    obtain ⟨rfl, htail⟩ := List.cons.inj heq
    have := nesting_inside h htail
    rw [nesting, weight_open] at hn
    omega

theorem Guarded.word {ts : List Token} {f : String} {k : Nat} (h : Balanced ts) :
    Guarded k (.word f :: .mark "(" :: (ts ++ [.mark ")"])) := by
  intro a s b heq hn
  cases a with
  | nil => simp at heq
  | cons t a =>
    obtain ⟨rfl, htail⟩ := List.cons.inj heq
    rw [nesting, weight_word, Int.zero_add] at hn
    have ho := Guarded.wrap h k a s b htail hn
    refine ⟨ho.comma, ho.assign, fun _ j op hj => ?_⟩
    cases a with
    | nil =>
      obtain rfl : "(" = s := by simpa using (List.cons.inj htail).1
      exact absurd rfl (operators_marks _ hj).2.1
    | cons t a =>
      obtain ⟨rfl, hinner⟩ := List.cons.inj htail
      have := nesting_inside h hinner
      rw [nesting, weight_open] at hn
      omega

theorem Primary.guarded {ts : List Token} {t : Tree} (h : Primary ts t) : Guarded 5 ts := by
  have single {t : Token} (ht : ∀ s, t ≠ .mark s) : Guarded 5 [t] := by
    intro a s b heq _
    rcases List.append_eq_cons_iff.mp heq.symm with ⟨_, hs⟩ | ⟨m, _, hm⟩
    · exact absurd (List.cons.inj hs).1.symm (ht s)
    · simp at hm
  cases h with
  | name _ => exact single (by simp)
  | number _ => exact single (by simp)
  | string _ => exact single (by simp)
  | boolean _ => exact single (by simp)
  | negative _ =>
    intro a s b heq hn
    cases a with
    | nil =>
      obtain rfl : "-" = s := by simpa using (List.cons.inj heq).1
      exact ⟨by decide, fun hs => absurd hs (by decide), fun ha => absurd rfl ha.ne_nil⟩
    | cons t a =>
      obtain ⟨rfl, htail⟩ := List.cons.inj heq
      cases a with
      | nil => simp at htail
      | cons t a => simp at htail
  | callNone _ => exact Guarded.word Balanced.nil
  | call _ h => exact Guarded.word h.balanced
  | group h => exact Guarded.wrap h.balanced 5

theorem Derives.guarded {k : Nat} {ts : List Token} {t : Tree} : Derives k ts t → Guarded k ts
  | .assign _ h => by
    intro a s b heq hn
    refine ⟨?_, fun _ => rfl, fun _ _ _ _ => Nat.zero_le _⟩
    match a with
    | [] => simp at heq
    | [_] =>
      obtain rfl : "=" = s := by simpa using (List.cons.inj (List.cons.inj heq).2).1
      decide
    | u :: v :: a =>
      obtain ⟨rfl, htail⟩ := List.cons.inj heq
      obtain ⟨rfl, hvalue⟩ := List.cons.inj htail
      exact (h.guarded a s b hvalue (by simpa [nesting, weight] using hn)).comma
  | .binary hs hl hr => Guarded.binary hs hl.guarded hl.balanced hr.guarded
  | .tighter _ h => fun a s b heq hn => (h.guarded a s b heq hn).loosen
  | .primary h => h.guarded

/-! ### The root of a parse -/

/-- No assignment stands outside parentheses in an operation or a primary. -/
theorem not_guarded_assign {k : Nat} {x : String} {vs : List Token} (hk : k ≠ 0) :
    ¬ Guarded k (.word x :: .mark "=" :: vs) := by
  intro h
  exact hk ((h [.word x] "=" vs rfl (by simp [nesting])).assign rfl)

theorem Derives.assign_inv {x : String} {vs : List Token} {j : Nat} {ts : List Token} {u : Tree} :
    Derives j ts u → ts = .word x :: .mark "=" :: vs → ∃ v, u = .assign x v ∧ Derives 0 vs v
  | .assign _ h, heq => by
    simp only [List.cons.injEq, Token.word.injEq, true_and] at heq
    obtain ⟨rfl, rfl⟩ := heq
    exact ⟨_, rfl, h⟩
  | .binary hs hl hr, heq => by
    have hk := (operators_levels _ hs).1
    have hg := (Derives.binary hs hl hr).guarded
    rw [heq] at hg
    exact absurd hg (not_guarded_assign (Nat.ne_of_gt hk))
  | .tighter _ h, heq => h.assign_inv heq
  | .primary h, heq => by
    have hg := h.guarded
    rw [heq] at hg
    exact absurd hg (not_guarded_assign (by decide))

/-- Of two operators outside parentheses the one further left cannot be the root of a
parse in which the other stands to its right, and the other way round. -/
theorem not_both_roots {j k : Nat} {s s' : String} {op op' : BinaryOp} {ls' m rs : List Token}
    {l l' r' : Tree} (hs : Operator k s op) (hs' : Operator j s' op')
    (hl : Derives k (ls' ++ .mark s' :: m) l) (hl' : Derives j ls' l')
    (hr' : Derives (j + 1) (m ++ .mark s :: rs) r') : False := by
  have hkj : k ≤ j :=
    (hl.guarded ls' s' m rfl hl'.balanced.nesting_eq).operator hl'.ended j op' hs'
  have hm : nesting m = 0 := by
    have := hl.balanced.nesting_eq
    rw [nesting_append, nesting, hs'.weight_eq, hl'.balanced.nesting_eq] at this
    omega
  have hne : m ≠ [] := by
    rintro rfl
    exact hs'.not_ended ls' hl.ended
  have hend : Ended m := by
    have : Ended (ls' ++ [.mark s'] ++ m) := by simpa using hl.ended
    exact this.of_append hne
  have hjk : j + 1 ≤ k := (hr'.guarded m s rs rfl hm).operator hend k op hs
  omega

theorem Derives.binary_inv {k : Nat} {s : String} {op : BinaryOp} {ls rs : List Token} {l r : Tree}
    (hs : Operator k s op) (hl : Derives k ls l) (hr : Derives (k + 1) rs r) {j : Nat}
    {ts : List Token} {u : Tree} : Derives j ts u → ts = ls ++ .mark s :: rs →
    ∃ l' r', u = .binary op l' r' ∧ Derives k ls l' ∧ Derives (k + 1) rs r'
  | .assign _ _, heq => by
    have hg := (Derives.binary hs hl hr).guarded
    rw [← heq] at hg
    exact absurd hg (not_guarded_assign (Nat.ne_of_gt (operators_levels _ hs).1))
  | .binary hs' hl' hr', heq => by
    rcases split_cases heq with ⟨rfl, hm, rfl⟩ | ⟨m, rfl, rfl⟩ | ⟨m, rfl, rfl⟩
    · simp only [Token.mark.injEq] at hm
      subst hm
      obtain ⟨rfl, rfl⟩ := hs.level_eq hs'
      exact ⟨_, _, rfl, hl', hr'⟩
    · exact (not_both_roots hs hs' hl hl' hr').elim
    · exact (not_both_roots hs' hs hl' hl hr).elim
  | .tighter _ h, heq => Derives.binary_inv hs hl hr h heq
  | .primary h, heq => by
    have h5 := (h.guarded ls s rs heq hl.balanced.nesting_eq).operator hl.ended k op hs
    have h4 := (operators_levels _ hs).2
    have : (5 : Nat) ≤ 4 := Nat.le_trans h5 h4
    omega

theorem Derives.primary_inv {ts : List Token} {t : Tree} (hp : Primary ts t) {j : Nat} {u : Tree} :
    Derives j ts u → Primary ts u
  | .assign _ _ => absurd hp.guarded (not_guarded_assign (by decide))
  | .binary hs hl _ => by
    have h5 := (hp.guarded _ _ _ rfl hl.balanced.nesting_eq).operator hl.ended _ _ hs
    have h4 := (operators_levels _ hs).2
    have : (5 : Nat) ≤ 4 := Nat.le_trans h5 h4
    omega
  | .tighter _ h => h.primary_inv hp
  | .primary h => h

/-! ### One parse -/

theorem Numeral.unique {sign text : String} {t u : Tree} (h : Numeral sign text t)
    (h' : Numeral sign text u) : t = u := by
  cases h with
  | integer h =>
    cases h' with
    | integer _ => rfl
    | double h' => exact absurd h h'.not_isDigits
    | float h' => exact absurd h h'.not_isDigits
  | double h =>
    cases h' with
    | integer h' => exact absurd h' h.not_isDigits
    | double _ => rfl
    | float h' => exact absurd h h'.not_isDecimal
  | float h =>
    cases h' with
    | integer h' => exact absurd h' h.not_isDigits
    | double h' => exact absurd h' h.not_isDecimal
    | float _ => rfl

theorem truth_injective {a b : Bool} (h : truth a = truth b) : a = b := by
  revert h
  cases a <;> cases b <;> decide

theorem close_inj {ts us : List Token} (h : ts ++ [.mark ")"] = us ++ [.mark ")"]) : ts = us :=
  (List.append_inj' h rfl).1

mutual
/-- **The same tokens have one parse**, whatever the levels. -/
theorem Derives.unique {j k : Nat} {ts : List Token} {t u : Tree} :
    Derives k ts t → Derives j ts u → t = u
  | .assign _ h, h' => by
    obtain ⟨v, rfl, hv⟩ := h'.assign_inv rfl
    rw [h.unique hv]
  | .binary hs hl hr, h' => by
    obtain ⟨l', r', rfl, hl', hr'⟩ := Derives.binary_inv hs hl hr h' rfl
    rw [hl.unique hl', hr.unique hr']
  | .tighter _ h, h' => h.unique h'
  | .primary h, h' => h.unique (h'.primary_inv h) rfl

theorem Primary.unique {ts us : List Token} {t u : Tree} :
    Primary ts t → Primary us u → ts = us → t = u
  | .name hx, h', heq => by
    cases h' with
    | name _ => simpa using heq
    | boolean b => exact absurd (by simpa using heq) (hx.2 b)
    | _ => simp at heq
  | .number h, h', heq => by
    cases h' with
    | number h' =>
      simp only [List.cons.injEq, Token.number.injEq, and_true] at heq
      subst heq
      exact h.unique h'
    | _ => simp at heq
  | .negative h, h', heq => by
    cases h' with
    | negative h' =>
      simp only [List.cons.injEq, Token.number.injEq, true_and, and_true] at heq
      subst heq
      exact h.unique h'
    | _ => simp at heq
  | .string _, h', heq => by
    cases h' with
    | string _ => simpa using heq
    | _ => simp at heq
  | .boolean b, h', heq => by
    cases h' with
    | name hx => exact absurd (by simpa using heq.symm) (hx.2 b)
    | boolean b' => rw [truth_injective (a := b) (b := b') (by simpa using heq)]
    | _ => simp at heq
  | .callNone _, h', heq => by
    cases h' with
    | callNone _ => simpa using heq
    | call _ hargs =>
      simp only [List.cons.injEq, true_and] at heq
      exact absurd (@close_inj _ [] heq.2.symm) hargs.ne_nil
    | _ => simp at heq
  | .call _ hargs, h', heq => by
    cases h' with
    | callNone _ =>
      simp only [List.cons.injEq, true_and] at heq
      exact absurd (@close_inj _ [] heq.2) hargs.ne_nil
    | call _ hargs' =>
      simp only [List.cons.injEq, Token.word.injEq, true_and] at heq
      obtain ⟨rfl, heq⟩ := heq
      rw [hargs.unique hargs' (close_inj heq)]
    | _ => simp at heq
  | .group h, h', heq => by
    cases h' with
    | group h' =>
      simp only [List.cons.injEq, true_and] at heq
      obtain rfl := close_inj heq
      rw [h.unique h']
    | _ => simp at heq

theorem Arguments.unique {ts us : List Token} {args args' : List Tree} :
    Arguments ts args → Arguments us args' → ts = us → args = args'
  | .one h, .one h', heq => by
    subst heq
    rw [h.unique h']
  | .one h, .more h' _, heq => by
    subst heq
    exact absurd rfl (h.guarded _ "," _ rfl h'.balanced.nesting_eq).comma
  | .more h _, .one h', heq => by
    subst heq
    exact absurd rfl (h'.guarded _ "," _ rfl h.balanced.nesting_eq).comma
  | .more h hs, .more h' hs', heq => by
    rcases split_cases heq with ⟨rfl, _, hrest⟩ | ⟨m, rfl, _⟩ | ⟨m, rfl, _⟩
    · rw [h.unique h', hs.unique hs' hrest]
    · exact absurd rfl (h'.guarded _ "," _ rfl h.balanced.nesting_eq).comma
    · exact absurd rfl (h.guarded _ "," _ rfl h'.balanced.nesting_eq).comma
end

/-- A text has one parse at most. -/
theorem Parses.unique {text : String} {t u : Tree} (h : Parses text t) (h' : Parses text u) :
    t = u := by
  obtain ⟨ts, hts, hd⟩ := h
  obtain ⟨us, hus, hd'⟩ := h'
  obtain rfl := hts.unique hus
  exact hd.unique hd'

end LittleC.C

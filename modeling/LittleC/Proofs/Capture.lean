import Mathlib.Data.List.Forall2
import LittleC.Proofs.Provenance

/-! Where a variable changes its meaning on the way to C. Lowering binds a name after its
initializer and C before it, so a declaration that hides a variable and mentions it in its
own initializer reads the new variable in C (`successor_captures`). And a declaration whose
type C cannot spell is an assignment there, so C does not see the variable at all.

`same_declarations_iff`: nothing else goes wrong. In every program that can be lowered the
names that stand for variables denote the same declarations in C exactly when none of
them is of these two kinds. -/
namespace LittleC
open C (Site Item)

/-- In C the name denotes the declaration that the chain resolves it to, if that is a
variable. -/
def Use.SameIn (u : Use) (denoted : String × Option Site) : Prop :=
  u.name = denoted.1 ∧
    ∀ d t, u.declaration = some d → d.symbol = .value t → denoted.2 = some d.site

/-- If the name is a variable's, C has a declaration of that variable, and the name does
not stand in the initializer of a declaration of the same name. -/
def Use.Kept (u : Use) : Prop :=
  ∀ d t, u.declaration = some d → d.symbol = .value t →
    d.written = true ∧ u.declares ≠ some u.name

/-! ### The two environments side by side -/

/-- What the chain and C say of the names in scope, with all sites below `n`: C agrees on
a variable exactly if it has a declaration of it. -/
structure Parallel (L : Names Declaration) (B : Names Site) (n : Site) : Prop where
  denotes : ∀ x d t, L x = some d → d.symbol = .value t → (B x = some d.site ↔ d.written = true)
  site_lt : ∀ x d, L x = some d → d.site < n
  bound_lt : ∀ x site, B x = some site → site < n

namespace Parallel

variable {L : Names Declaration} {B : Names Site} {n : Site}

theorem empty : Parallel Names.empty Names.empty 0 where
  denotes := by simp [Names.empty]
  site_lt := by simp [Names.empty]
  bound_lt := by simp [Names.empty]

theorem mono (h : Parallel L B n) {m : Site} (hm : n ≤ m) : Parallel L B m where
  denotes := h.denotes
  site_lt x d hx := Nat.lt_of_lt_of_le (h.site_lt x d hx) hm
  bound_lt x site hx := Nat.lt_of_lt_of_le (h.bound_lt x site hx) hm

/-- A declaration that C has too. -/
theorem add (h : Parallel L B n) (x : String) (symbol : Symbol) :
    Parallel (L.add x ⟨symbol, n, true⟩) (B.add x n) (n + 1) where
  denotes y d t hd ht := by
    by_cases hy : y = x
    · subst hy
      rw [Names.add_self] at hd ⊢
      cases hd
      simp
    · rw [Names.add_of_ne _ hy] at hd ⊢
      exact h.denotes y d t hd ht
  site_lt := Names.of_add (Nat.lt_succ_self n) fun y d hd => Nat.lt_succ_of_lt (h.site_lt y d hd)
  bound_lt := Names.of_add (Nat.lt_succ_self n) fun y s hs => Nat.lt_succ_of_lt (h.bound_lt y s hs)

/-- A declaration that C does not have. -/
theorem addUnwritten (h : Parallel L B n) (x : String) (symbol : Symbol) :
    Parallel (L.add x ⟨symbol, n, false⟩) B (n + 1) where
  denotes y d t hd ht := by
    by_cases hy : y = x
    · subst hy
      rw [Names.add_self] at hd
      cases hd
      -- The site is new, so nothing in scope in C has it.
      have hne : B y ≠ some n := fun hb => Nat.lt_irrefl n (h.bound_lt y n hb)
      simp [hne]
    · rw [Names.add_of_ne _ hy] at hd
      exact h.denotes y d t hd ht
  site_lt := Names.of_add (Nat.lt_succ_self n) fun y d hd => Nat.lt_succ_of_lt (h.site_lt y d hd)
  bound_lt y site hs := Nat.lt_succ_of_lt (h.bound_lt y site hs)

/-- Parameters, which C has all. -/
theorem addParams (params : List Param) (h : Parallel L B n) :
    Parallel (L.addAll ((params.zipIdx n).map fun p => (p.1.name, ⟨.value p.1.type, p.2, true⟩)))
      (B.addAll ((params.zipIdx n).map fun p => (p.1.name, p.2))) (n + params.length) := by
  induction params generalizing L B n with
  | nil => exact h
  | cons p rest ih =>
    have hrest := ih (h.add p.name (.value p.type))
    rw [Nat.add_right_comm, Nat.add_assoc] at hrest
    exact hrest

/-- Where a function begins, in the chain and in C. -/
theorem enter {σ : Chain} (h : Parallel σ.lookup B n) (name : String) (signature : Signature) :
    Parallel (σ.enter n name signature).lookup
      (Item.inBody B n name (signature.params.zipIdx (n + 1))) (n + 1 + signature.params.length) := by
  rw [Chain.lookup_enter]
  exact (h.add name (.function signature)).addParams signature.params

end Parallel

/-! ### Name by name -/

/-- The two lists name the same, and C denotes the declaration of the chain exactly where
nothing goes wrong. -/
def Compared (uses : List Use) (denoted : List (String × Option Site)) : Prop :=
  List.Forall₂ (fun u c => u.name = c.1 ∧ (u.SameIn c ↔ u.Kept)) uses denoted

theorem compared_names {σ : Chain} {B B' : Names Site} {n : Site} (h : Parallel σ.lookup B n)
    (declares : Option String) (e : Expr)
    (hB : ∀ x, if declares = some x then B' x = some n else B' x = B x) :
    Compared (σ.uses declares e) (Item.mentions B' e) := by
  unfold Compared Chain.uses Item.mentions
  rw [List.forall₂_map_left_iff, List.forall₂_map_right_iff, List.forall₂_same]
  intro x _
  refine ⟨rfl, ?_⟩
  have hx := hB x
  constructor
  · rintro ⟨_, hsame⟩ d t hd ht
    have hsame := hsame d t hd ht
    by_cases hdecl : declares = some x
    · -- In its own initializer the name denotes the new declaration, and the chain has
      -- only older ones.
      rw [if_pos hdecl] at hx
      have heq : n = d.site := Option.some.inj (hx.symm.trans hsame)
      exact absurd (heq ▸ h.site_lt x d hd) (Nat.lt_irrefl _)
    · rw [if_neg hdecl] at hx
      exact ⟨(h.denotes x d t hd ht).mp (hx ▸ hsame), hdecl⟩
  · intro hkept
    refine ⟨rfl, fun d t hd ht => ?_⟩
    obtain ⟨hwritten, hdecl⟩ := hkept d t hd ht
    rw [if_neg hdecl] at hx
    exact hx.trans ((h.denotes x d t hd ht).mpr hwritten)

/-- Nothing goes wrong with any of the names exactly if C denotes every declaration. -/
theorem Compared.same_iff {uses : List Use} {denoted : List (String × Option Site)}
    (h : Compared uses denoted) : List.Forall₂ Use.SameIn uses denoted ↔ ∀ u ∈ uses, u.Kept := by
  induction h with
  | nil => simp
  | cons hfirst _ ih =>
    rw [List.forall₂_cons, List.forall_mem_cons, hfirst.2, ih]

/-- Outside of initializers nothing is captured. -/
theorem compared_plain {σ : Chain} {B : Names Site} {n : Site} (h : Parallel σ.lookup B n)
    (e : Expr) : Compared (σ.uses none e) (Item.mentions B e) :=
  compared_names h none e (by simp)

namespace Stmt

mutual
theorem compared_account {B : Names Site} : (s : Stmt) → {σ : Chain} → {n : Site} →
    Parallel σ.lookup B n →
    Compared (s.account σ n).uses ((s.account σ n).written.denotations B) ∧
      Parallel (s.account σ n).chain.lookup ((s.account σ n).written.after B) (s.account σ n).next ∧
      n ≤ (s.account σ n).next
  | prototype name signature, σ, n, h => by
    rw [account]
    refine ⟨.nil, ?_, Nat.le_succ n⟩
    rw [Chain.lookup_bind]
    exact h.addUnwritten name (.function signature)
  | function name signature body, σ, n, h => by
    obtain ⟨hbody, hle⟩ := comparedAll_account body (h.enter name signature)
    have hsucc : n + 1 ≤ _ := Nat.le_trans (Nat.le_add_right (n + 1) _) hle
    rw [account]
    refine ⟨hbody, ?_, Nat.le_of_succ_le hsucc⟩
    rw [Chain.lookup_bind]
    exact (h.add name (.function signature)).mono hsucc
  | conditional condition body none, σ, n, h => by
    obtain ⟨hbody, hle⟩ := comparedAll_account body (σ := σ.push) h
    rw [account]
    exact ⟨List.rel_append (compared_plain h condition) hbody, h.mono hle, hle⟩
  | conditional condition body (some otherwise), σ, n, h => by
    obtain ⟨hbody, hle⟩ := comparedAll_account body (σ := σ.push) h
    obtain ⟨hother, hle'⟩ := comparedAll_account otherwise (σ := σ.push) (h.mono hle)
    rw [account]
    have hle'' := Nat.le_trans hle hle'
    exact ⟨List.rel_append (compared_plain h condition) (List.rel_append hbody hother),
      h.mono hle'', hle''⟩
  | loop initial condition step body, σ, n, h => by
    obtain ⟨hfirst, hpar, hle⟩ := compared_account initial (σ := σ.push) h
    obtain ⟨hbody, hle'⟩ :=
      comparedAll_account body (σ := (account σ.push n initial).chain.push) hpar
    rw [account]
    have hle'' := Nat.le_trans hle hle'
    refine ⟨List.rel_append hfirst ?_, h.mono hle'', hle''⟩
    exact List.rel_append (compared_plain hpar condition)
      (List.rel_append (compared_plain hpar step) hbody)
  | ret none, σ, n, h => by
    rw [account]
    exact ⟨.nil, h, Nat.le_refl n⟩
  | ret (some value), σ, n, h => by
    rw [account]
    exact ⟨compared_plain h value, h, Nat.le_refl n⟩
  | declare name value, σ, n, h => by
    rw [account]
    by_cases ht : (value.typeIn σ.scope).isSpelled = true
    · refine ⟨?_, ?_, Nat.le_succ n⟩
      · rw [Item.denotations, Item.after_declare ht, if_pos ht]
        refine compared_names h (some name) value fun x => ?_
        by_cases hx : x = name
        · rw [if_pos (congrArg some hx.symm), hx, Names.add_self]
        · rw [if_neg fun hs => hx (Option.some.inj hs).symm, Names.add_of_ne _ hx]
      · rw [Chain.lookup_bind, Item.after_declare ht, ht]
        exact h.add name _
    · refine ⟨?_, ?_, Nat.le_succ n⟩
      · rw [Item.denotations, Item.after_declare_unspelled ht, if_neg ht]
        exact compared_plain h value
      · rw [Chain.lookup_bind, Item.after_declare_unspelled ht, Bool.eq_false_iff.mpr ht]
        exact h.addUnwritten name _
  | call callee arguments, σ, n, h => by
    rw [account]
    exact ⟨compared_plain h _, h, Nat.le_refl n⟩
  | assign target value, σ, n, h => by
    rw [account]
    exact ⟨compared_plain h _, h, Nat.le_refl n⟩
  | raw text, σ, n, h => by
    rw [account]
    exact ⟨.nil, h, Nat.le_refl n⟩
  | unrecognized node, σ, n, h => by
    rw [account]
    exact ⟨.nil, h, Nat.le_refl n⟩

theorem comparedAll_account {B : Names Site} : (ss : List Stmt) → {σ : Chain} → {n : Site} →
    Parallel σ.lookup B n →
    Compared (accountAll σ n ss).uses (Item.denotationsAll B (accountAll σ n ss).written) ∧
      n ≤ (accountAll σ n ss).next
  | [], σ, n, h => by
    rw [accountAll]
    exact ⟨.nil, Nat.le_refl n⟩
  | s :: rest, σ, n, h => by
    obtain ⟨hfirst, hpar, hle⟩ := compared_account s h
    obtain ⟨hrest, hle'⟩ := comparedAll_account rest hpar
    rw [accountAll]
    exact ⟨List.rel_append hfirst hrest, Nat.le_trans hle hle'⟩
end

end Stmt

/-- **Variables keep their declarations, two cases apart.** A program that can be lowered
is written as the statements of its account. The names of the account are those that
lowering looks up, and each stands for what the scope there says. The variables among them
denote the declarations that they were resolved to exactly when C has a declaration of
each and none stands in the initializer of a declaration of its own name. -/
theorem same_declarations_iff (p : Program) (code : String) (h : p.lower = .ok code) :
    code = Layout.joinLines (Item.textAll "" p.account.written) ∧
    (Stmt.traceAll .root p).flatMap Visit.lookedUp = p.account.uses.map Use.lookedUp ∧
    (∀ u ∈ p.account.uses,
      u.chain.scope.lookup u.name = u.declaration.map Declaration.symbol) ∧
    (List.Forall₂ Use.SameIn p.account.uses (Item.denotationsAll Names.empty p.account.written) ↔
      ∀ u ∈ p.account.uses, u.Kept) := by
  simp only [Program.lower, Stmt.lowerBlock, bind_eq_ok, ← Chain.scope_root] at h
  obtain ⟨⟨codes, last⟩, hcodes, h⟩ := h
  cases h
  refine ⟨?_, Stmt.traceAll_account p hcodes 0, fun u _ => u.chain.lookup_scope u.name, ?_⟩
  · rw [(Stmt.lowerAll_account p hcodes 0).1]
    rfl
  · have hroot : Parallel Chain.root.lookup Names.empty 0 := Parallel.empty
    exact (Stmt.comparedAll_account p hroot).1.same_iff

/-- A function whose inner block hides a variable by one more than that variable. -/
def successor : Program :=
  [.function "main" ⟨[], .void⟩
    [.declare "x" (.integer "1"),
      .conditional (.boolean true)
        [.declare "x" (.binary .plus (.symbol "x") (.integer "1"))] none]]

theorem same_declarations_iff_successor : ∃ code, successor.lower = .ok code ∧
    (List.Forall₂ Use.SameIn successor.account.uses
      (Item.denotationsAll Names.empty successor.account.written) ↔
        ∀ u ∈ successor.account.uses, u.Kept) :=
  ⟨_, rfl, (same_declarations_iff successor _ rfl).2.2.2⟩

/-- The initializer of the inner variable names the outer one, and in C itself. -/
theorem successor_captures : (∃ code, successor.lower = .ok code) ∧
    ¬ List.Forall₂ Use.SameIn successor.account.uses
      (Item.denotationsAll Names.empty successor.account.written) := by
  refine ⟨⟨_, rfl⟩, fun h => ?_⟩
  have huses : successor.account.uses.map (fun u => (u.name, u.declaration)) =
      [("x", some ⟨.value .i32, 1, true⟩)] := by decide
  have hdenoted : Item.denotationsAll Names.empty successor.account.written = [("x", some 2)] := by
    decide
  rw [hdenoted] at h
  obtain ⟨u, us, ⟨_, hsame⟩, _, heq⟩ := List.forall₂_cons_right_iff.mp h
  rw [heq, List.map_cons] at huses
  have hdecl : u.declaration = some ⟨.value .i32, 1, true⟩ :=
    congrArg Prod.snd (List.cons.inj huses).1
  exact absurd (hsame _ _ hdecl rfl) (by decide)

end LittleC

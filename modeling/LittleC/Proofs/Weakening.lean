import LittleC.Proofs.Typing

/-! More declarations in scope. An environment extends another if it says of every name that
the other knows the same as the other; it may know more. Lowering looks a name up only to
find out what it stands for, and fails where it stands for nothing, so nothing that is
lowered can tell the two apart.

`lower_in_extension`: what is lowered is lowered to the same text in every chain that
extends its own. A program is lowered with nothing declared, so its text is the same in every
chain and behind any prototypes. -/
namespace LittleC

/-! ### Environments -/

namespace Names

variable {α : Type}

/-- The first says of every name of the second what the second says. -/
def Extends (F E : Names α) : Prop :=
  ∀ name a, E name = some a → F name = some a

variable {F E : Names α}

theorem Extends.add (h : F.Extends E) (name : String) (a : α) :
    (F.add name a).Extends (E.add name a) := by
  intro other b hb
  unfold Names.add at hb ⊢
  split at hb
  · next hname => rwa [if_pos hname]
  · next hname =>
    rw [if_neg hname]
    exact h other b hb

theorem Extends.addAll (h : F.Extends E) (pairs : List (String × α)) :
    (F.addAll pairs).Extends (E.addAll pairs) := by
  induction pairs generalizing F E with
  | nil => exact h
  | cons pair rest ih => exact ih (h.add pair.1 pair.2)

end Names

mutual
/-- A type is kept in a larger environment. -/
theorem HasType.extend {F E : Env} (hext : F.Extends E) {e : Expr} {t : Ty} :
    HasType E e t → HasType F e t
  | .binary hl hr hfits => .binary (hl.extend hext) (hr.extend hext) hfits
  | .symbol hs => .symbol (hext _ _ hs)
  | .float => .float
  | .double => .double
  | .integer => .integer
  | .string => .string
  | .boolean => .boolean
  | .call hf harity hargs => .call (hext _ _ hf) harity (hargs.extend hext)
  | .assign hx hv hfits => .assign (hext _ _ hx) (hv.extend hext) hfits
  | .raw => .raw
  | .unrecognized => .unrecognized

theorem AllTyped.extend {F E : Env} (hext : F.Extends E) {es : List Expr} :
    AllTyped E es → AllTyped F es
  | .nil => .nil
  | .cons he hrest => .cons (he.extend hext) (hrest.extend hext)
end

/-! ### Chains -/

namespace Scope

/-- Every name that the second chain resolves is resolved by the first to the same symbol. -/
def Extends (t s : Scope) : Prop :=
  ∀ name symbol, s.lookup name = some symbol → t.lookup name = some symbol

variable {t s : Scope}

theorem Extends.root (t : Scope) : t.Extends .root := by
  intro name symbol h
  cases h

theorem Extends.bind (h : t.Extends s) (name : String) (symbol : Symbol) :
    (t.bind name symbol).Extends (s.bind name symbol) := by
  unfold Extends
  rw [lookup_bind_eq, lookup_bind_eq]
  exact Names.Extends.add h name symbol

theorem Extends.push (h : t.Extends s) : t.push.Extends s.push := h

theorem Extends.enter (h : t.Extends s) (name : String) (signature : Signature) :
    (t.enter name signature).Extends (s.enter name signature) := by
  unfold Extends
  rw [lookup_enter, lookup_enter]
  exact Names.Extends.addAll (Names.Extends.add h name _) _

end Scope

/-! ### Lowering -/

/-- An expression looks at nothing but the names it has. -/
theorem Expr.lower_extends {s t : Scope} (hext : t.Extends s) {e : Expr} {v : Lowered}
    (h : e.lower s = .ok v) : e.lower t = .ok v := by
  have htyped : HasType t.lookup e v.type := (lower_hasType e h).extend hext
  rw [lower_of_hasType htyped, ← lower_code e h]

namespace Stmt

mutual
theorem lower_extends {s t : Scope} {indent : String} (hext : t.Extends s) : (stmt : Stmt) →
    {l : LoweredStmt} → stmt.lower s indent = .ok l →
    ∃ after, stmt.lower t indent = .ok ⟨l.code, after⟩ ∧ after.Extends l.scope
  | prototype f signature, l, h => by
    cases h
    exact ⟨_, rfl, hext.bind f _⟩
  | function f signature body, l, h => by
    simp only [lower, bind_eq_ok] at h
    obtain ⟨⟨codes, last⟩, hbody, h⟩ := h
    cases h
    obtain ⟨_, hbody', _⟩ := lowerAll_extends (hext.enter f signature) body hbody
    rw [lower, hbody']
    exact ⟨_, rfl, hext.bind f _⟩
  | conditional c body none, l, h => by
    simp only [lower, bind_eq_ok] at h
    obtain ⟨v, hc, ⟨codes, last⟩, hbody, h⟩ := h
    cases h
    obtain ⟨_, hbody', _⟩ := lowerAll_extends hext.push body hbody
    rw [lower, Expr.lower_extends hext hc, hbody']
    exact ⟨_, rfl, hext⟩
  | conditional c body (some otherwise), l, h => by
    simp only [lower, bind_eq_ok] at h
    obtain ⟨v, hc, ⟨codes, last⟩, hbody, ⟨codes', last'⟩, hother, h⟩ := h
    cases h
    obtain ⟨_, hbody', _⟩ := lowerAll_extends hext.push body hbody
    obtain ⟨_, hother', _⟩ := lowerAll_extends hext.push otherwise hother
    rw [lower, Expr.lower_extends hext hc, hbody', hother']
    exact ⟨_, rfl, hext⟩
  | loop initial c step body, l, h => by
    simp only [lower, bind_eq_ok] at h
    obtain ⟨i, hi, v, hc, w, hstep, ⟨codes, last⟩, hbody, h⟩ := h
    cases h
    obtain ⟨inner, hi', hinner⟩ := lower_extends hext.push initial hi
    obtain ⟨_, hbody', _⟩ := lowerAll_extends hinner.push body hbody
    rw [lower, hi']
    -- The rest is lowered in the chain that the initializer leaves.
    dsimp only [bind, Except.bind]
    rw [Expr.lower_extends hinner hc, Expr.lower_extends hinner hstep, hbody']
    exact ⟨_, rfl, hext⟩
  | ret none, l, h => by
    cases h
    exact ⟨_, rfl, hext⟩
  | ret (some value), l, h => by
    simp only [lower, bind_eq_ok] at h
    obtain ⟨v, hv, h⟩ := h
    cases h
    rw [lower, Expr.lower_extends hext hv]
    exact ⟨_, rfl, hext⟩
  | declare x value, l, h => by
    simp only [lower, bind_eq_ok] at h
    obtain ⟨v, hv, h⟩ := h
    cases h
    rw [lower, Expr.lower_extends hext hv]
    exact ⟨_, rfl, hext.bind x _⟩
  | call f args, l, h => by
    simp only [lower, bind_eq_ok] at h
    obtain ⟨v, hv, h⟩ := h
    cases h
    rw [lower, Expr.lower_extends hext hv]
    exact ⟨_, rfl, hext⟩
  | assign x value, l, h => by
    simp only [lower, bind_eq_ok] at h
    obtain ⟨v, hv, h⟩ := h
    cases h
    rw [lower, Expr.lower_extends hext hv]
    exact ⟨_, rfl, hext⟩
  | raw _, l, h => by
    cases h
    exact ⟨_, rfl, hext⟩
  | unrecognized _, l, h => by
    cases h
    exact ⟨_, rfl, hext⟩

theorem lowerAll_extends {s t : Scope} {indent : String} (hext : t.Extends s) :
    (ss : List Stmt) → {codes : List String} → {last : Scope} →
    lowerAll s indent ss = .ok (codes, last) →
    ∃ after, lowerAll t indent ss = .ok (codes, after) ∧ after.Extends last
  | [], codes, last, h => by
    cases h
    exact ⟨t, rfl, hext⟩
  | stmt :: rest, codes, last, h => by
    simp only [lowerAll, bind_eq_ok] at h
    obtain ⟨first, hfirst, ⟨codes', last'⟩, hrest, h⟩ := h
    cases h
    obtain ⟨mid, hfirst', hmid⟩ := lower_extends hext stmt hfirst
    obtain ⟨after, hrest', hafter⟩ := lowerAll_extends hmid rest hrest
    refine ⟨after, ?_, hafter⟩
    rw [lowerAll, hfirst']
    show lowerAll mid _ _ >>= _ = _
    rw [hrest']
    rfl
end

theorem lowerBlock_extends {s t : Scope} {indent code : String} {body : List Stmt}
    (hext : t.Extends s) (h : lowerBlock s indent body = .ok code) :
    lowerBlock t indent body = .ok code := by
  obtain ⟨⟨codes, last⟩, hcodes, hcode⟩ := bind_eq_ok.mp h
  obtain ⟨after, hcodes', _⟩ := lowerAll_extends hext body hcodes
  rw [lowerBlock, hcodes']
  exact hcode

/-! ### Prototypes -/

/-- The prototypes of functions, in order. -/
def prototypes (functions : List (String × Signature)) : List Stmt :=
  functions.map fun f => prototype f.1 f.2

/-- A prototype has no text, and takes no line. -/
theorem lowerBlock_prototype (f : String) (signature : Signature) (scope : Scope)
    (indent : String) (body : List Stmt) :
    lowerBlock scope indent (prototype f signature :: body) =
      lowerBlock (scope.bind f (.function signature)) indent body := by
  rw [lowerBlock, lowerAll, lower, lowerBlock]
  dsimp only [bind, Except.bind]
  cases lowerAll (scope.bind f (.function signature)) indent body with
  | error e => rfl
  | ok result => rfl

/-- A block behind prototypes is lowered in the chain that they leave. -/
theorem lowerBlock_prototypes (functions : List (String × Signature)) (scope : Scope)
    (indent : String) (body : List Stmt) :
    ∃ after, lowerBlock scope indent (prototypes functions ++ body) = lowerBlock after indent body := by
  induction functions generalizing scope with
  | nil => exact ⟨scope, rfl⟩
  | cons f rest ih =>
    obtain ⟨after, hafter⟩ := ih (scope.bind f.1 (.function f.2))
    exact ⟨after, (lowerBlock_prototype f.1 f.2 scope indent _).trans hafter⟩

end Stmt

/-- **More declarations never break a program.** A statement that is lowered is lowered to
the same text in every chain that extends its own, and the chain left behind it extends the
one that was left before. So a program has the same text in every chain, and behind any
prototypes. -/
theorem lower_in_extension :
    (∀ (stmt : Stmt) (indent : String) (s t : Scope) (l : LoweredStmt), t.Extends s →
      stmt.lower s indent = .ok l →
      ∃ after, stmt.lower t indent = .ok ⟨l.code, after⟩ ∧ after.Extends l.scope) ∧
    ∀ (p : Program) (code : String), p.lower = .ok code →
      (∀ t, Stmt.lowerBlock t "" p = .ok code) ∧
        ∀ functions, Program.lower (Stmt.prototypes functions ++ p) = .ok code := by
  refine ⟨fun stmt indent s t l hext h => Stmt.lower_extends hext stmt h, fun p code h => ?_⟩
  have hevery : ∀ t, Stmt.lowerBlock t "" p = .ok code := fun t =>
    Stmt.lowerBlock_extends (.root t) h
  refine ⟨hevery, fun functions => ?_⟩
  obtain ⟨after, hafter⟩ := Stmt.lowerBlock_prototypes functions .root "" p
  exact hafter.trans (hevery after)

/-- A loop that calls a function and hides it in the body. -/
def recount : Stmt :=
  .loop (.declare "i" (.call "f" [.symbol "n"])) (.binary .lessThan (.symbol "i") (.integer "9"))
    (.assign "i" (.binary .plus (.symbol "i") (.symbol "n")))
    [.declare "f" (.symbol "i"), .declare "n" (.symbol "f")]

/-- What the loop needs to know: the function, and a number. -/
def recountScope : Scope :=
  (Scope.root.bind "f" (.function ⟨[⟨"x", .i32⟩], .i32⟩)).bind "n" (.value .i32)

def recountCode : String :=
  "for(int i = f(n); i < 9; i = i + n) \x7b\n  int f = i;\n  int n = f;\n\x7d"

theorem lower_in_extension_recount :
    let wide := (recountScope.bind "m" (.value .bool)).push
    let p : Program := [.prototype "f" ⟨[⟨"x", .i32⟩], .i32⟩, .declare "n" (.integer "1"), recount]
    let code := "int n = 1;\n" ++ recountCode
    wide.Extends recountScope ∧ recount.lower recountScope "" = .ok ⟨recountCode, recountScope⟩ ∧
      (∃ after, recount.lower wide "" = .ok ⟨recountCode, after⟩ ∧ after.Extends recountScope) ∧
      p.lower = .ok code ∧ Stmt.lowerBlock wide "" p = .ok code ∧
      Program.lower (Stmt.prototypes [("f", ⟨[], .bool⟩), ("n", ⟨[], .void⟩)] ++ p) = .ok code := by
  intro wide p code
  have hext : wide.Extends recountScope := by
    intro name symbol h
    rw [Scope.lookup_push, Scope.lookup_bind]
    split
    · next hname =>
      subst hname
      cases h
    · exact h
  have hstmt : recount.lower recountScope "" = .ok ⟨recountCode, recountScope⟩ := by rfl
  have hprogram : p.lower = .ok code := by rfl
  have hstep := lower_in_extension.1 recount "" recountScope wide _ hext hstmt
  have hwhole := lower_in_extension.2 p code hprogram
  exact ⟨hext, hstmt, hstep, hprogram, hwhole.1 wide, hwhole.2 _⟩

end LittleC

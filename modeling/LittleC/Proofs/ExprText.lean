import LittleC.Lowering.Expr

/-! The text of an expression by itself. Lowering reads the scope to find out whether an
expression has a meaning and what its type is; the text that it gives, when it gives one,
is the same in every scope (`lower_code`). -/
namespace LittleC

/-- A computation in two steps succeeds when both steps do. -/
theorem bind_eq_ok {ε α β : Type} {x : Except ε α} {f : α → Except ε β} {b : β} :
    x >>= f = .ok b ↔ ∃ a, x = .ok a ∧ f a = .ok b := by
  cases x with
  | error e =>
    constructor
    · intro h
      cases h
    · rintro ⟨_, h, _⟩
      cases h
  | ok a =>
    constructor
    · intro h
      exact ⟨a, rfl, h⟩
    · rintro ⟨_, h, h'⟩
      cases h
      exact h'

namespace Expr

mutual
/-- How an expression is written in C. -/
def text : Expr → String
  | binary op left right =>
    operandCode (· < op.precedence) left (text left) ++ " " ++ op.symbol ++ " " ++
      operandCode (· ≤ op.precedence) right (text right)
  | symbol name => name
  | float t | double t | integer t => t
  | string t => "\"" ++ t ++ "\""
  | boolean b => if b then "true" else "false"
  | call callee arguments => callee ++ "(" ++ Layout.commaList (textAll arguments) ++ ")"
  | assign target value => target ++ " = " ++ text value
  | raw t => t
  | unrecognized node => marker node

def textAll : List Expr → List String
  | [] => []
  | e :: rest => text e :: textAll rest
end

theorem combine_code {op : BinaryOp} {left right : Expr} {l r v : Lowered}
    (h : combine op left right l r = .ok v) :
    v.code = operandCode (· < op.precedence) left l.code ++ " " ++ op.symbol ++ " " ++
      operandCode (· ≤ op.precedence) right r.code := by
  unfold combine at h
  split at h
  · exact (Except.ok.inj h) ▸ rfl
  · cases h

theorem apply_code {callee : String} {signature : Signature} {args : List Lowered} {v : Lowered}
    (h : apply callee signature args = .ok v) :
    v.code = callee ++ "(" ++ Layout.commaList (args.map Lowered.code) ++ ")" := by
  unfold apply at h
  split at h
  · cases h
  · cases h
  · exact (Except.ok.inj h) ▸ rfl

theorem store_code {target : String} {type : Ty} {value v : Lowered}
    (h : store target type value = .ok v) : v.code = target ++ " = " ++ value.code := by
  unfold store at h
  split at h
  · exact (Except.ok.inj h) ▸ rfl
  · cases h

mutual
/-- Whatever the scope, an expression that can be lowered is lowered to its text. -/
theorem lower_code {scope : Scope} : (e : Expr) → {v : Lowered} → e.lower scope = .ok v →
    v.code = e.text
  | binary op left right, v, h => by
    simp only [lower, bind_eq_ok] at h
    obtain ⟨l, hl, r, hr, h⟩ := h
    rw [combine_code h, lower_code left hl, lower_code right hr, text]
  | symbol name, v, h => by
    simp only [lower] at h
    split at h
    · exact (Except.ok.inj h) ▸ rfl
    · cases h
  | float _, v, h => (Except.ok.inj h) ▸ rfl
  | double _, v, h => (Except.ok.inj h) ▸ rfl
  | integer _, v, h => (Except.ok.inj h) ▸ rfl
  | string _, v, h => (Except.ok.inj h) ▸ rfl
  | boolean _, v, h => (Except.ok.inj h) ▸ rfl
  | call callee arguments, v, h => by
    simp only [lower] at h
    split at h
    · obtain ⟨args, hargs, h⟩ := bind_eq_ok.mp h
      rw [apply_code h, lowerAll_code arguments hargs, text]
    · cases h
  | assign target value, v, h => by
    simp only [lower] at h
    split at h
    · obtain ⟨w, hw, h⟩ := bind_eq_ok.mp h
      rw [store_code h, lower_code value hw, text]
    · cases h
  | raw _, v, h => (Except.ok.inj h) ▸ rfl
  | unrecognized _, v, h => (Except.ok.inj h) ▸ rfl

theorem lowerAll_code {scope : Scope} : (es : List Expr) → {vs : List Lowered} →
    lowerAll scope es = .ok vs → vs.map Lowered.code = textAll es
  | [], vs, h => (Except.ok.inj h) ▸ rfl
  | e :: rest, vs, h => by
    simp only [lowerAll, bind_eq_ok] at h
    obtain ⟨v, hv, vs', hvs, h⟩ := h
    rw [← Except.ok.inj h, List.map_cons, lower_code e hv, lowerAll_code rest hvs, textAll]
end

end Expr
end LittleC

import Mathlib
import LittleC.Proofs.Surface
import LittleC.Proofs.TypeSources

/-! Types in parsed programs. The rules of the grammar bring no types but those that have a
name, and `any` where a token is raw text. As lowering adds none, these are all the types that
it meets and writes for a parsed program (`parsed_types_named`). -/
namespace LittleC
open C (Item)

namespace Grammar
open LittleC.Expr LittleC.Stmt

variable {P : Ty → Prop}

/-- Raw text among the tokens brings the type `any`. -/
def RawBrings (P : Ty → Prop) (ts : List Token) : Prop :=
  ∀ t ∈ ts, t.kind = .rawCode → P .any

@[simp] theorem rawBrings_cons {t : Token} {ts : List Token} :
    RawBrings P (t :: ts) ↔ (t.kind = .rawCode → P .any) ∧ RawBrings P ts :=
  List.forall_mem_cons

@[simp] theorem rawBrings_append {ts us : List Token} :
    RawBrings P (ts ++ us) ↔ RawBrings P ts ∧ RawBrings P us :=
  List.forall_mem_append

mutual
theorem Expression.brings (hnamed : ∀ t : Ty, t.Named → P t) {n : Nat} {ts : List Token}
    {e : Expr} : Expression n ts e → RawBrings P ts → e.Brings P
  | .assign _ _ hv, hraw => by
    simp only [rawBrings_append, rawBrings_cons] at hraw
    exact Expr.brings_assign.mpr (hv.brings hnamed hraw.2.2)
  | .binary _ hl hr, hraw => by
    simp only [rawBrings_append, rawBrings_cons] at hraw
    exact brings_binary.mpr ⟨fun _ => hnamed _ ⟨"Bool", rfl⟩, hl.brings hnamed hraw.1,
      hr.brings hnamed hraw.2.2⟩
  | .tighter _ h, hraw => h.brings hnamed hraw
  | .call _ _ ha _, hraw => by
    simp only [rawBrings_append, rawBrings_cons] at hraw
    exact Expr.brings_call.mpr (ha.brings hnamed hraw.2.2.1)
  | .primary h, hraw => h.brings hnamed hraw

theorem Primary.brings (hnamed : ∀ t : Ty, t.Named → P t) {ts : List Token} {e : Expr} :
    Primary ts e → RawBrings P ts → e.Brings P
  | .number _ htext, _ | .negative _ _ htext, _ => by
    rcases ofText?_eq_some htext with h | h | h
    · exact h ▸ (brings_own rfl rfl).mpr (hnamed _ ⟨"F32", rfl⟩)
    · exact h ▸ (brings_own rfl rfl).mpr (hnamed _ ⟨"F64", rfl⟩)
    · exact h ▸ (brings_own rfl rfl).mpr (hnamed _ ⟨"I32", rfl⟩)
  | .name _, _ => List.forall_mem_singleton.mpr (by simp [ownType?])
  | .string _, _ => (brings_own rfl rfl).mpr (hnamed _ ⟨"String", rfl⟩)
  | .isTrue _, _ => (brings_own rfl rfl).mpr (hnamed _ ⟨"Bool", rfl⟩)
  | .isFalse _, _ => (brings_own rfl rfl).mpr (hnamed _ ⟨"Bool", rfl⟩)
  | .raw ht, hraw => (brings_own rfl rfl).mpr ((rawBrings_cons.mp hraw).1 ht)
  | .group _ h _, hraw => by
    simp only [rawBrings_append, rawBrings_cons] at hraw
    exact h.brings hnamed hraw.2.1

theorem Arguments.brings (hnamed : ∀ t : Ty, t.Named → P t) {ts : List Token}
    {args : List Expr} : Arguments ts args → RawBrings P ts → ∀ a ∈ args, a.Brings P
  | .nil, _ => List.forall_mem_nil _
  | .last h, hraw => List.forall_mem_singleton.mpr (h.brings hnamed hraw)
  | .cons h _ ha, hraw => by
    simp only [rawBrings_append, rawBrings_cons] at hraw
    exact List.forall_mem_cons.mpr ⟨h.brings hnamed hraw.1, ha.brings hnamed hraw.2.2⟩
end

theorem Header.brings (hnamed : ∀ t : Ty, t.Named → P t) {ts : List Token} {f : String}
    {signature : Signature} (h : Header ts f signature) : ∀ t ∈ signature.types, P t :=
  fun t ht => hnamed t (h.named t ht)

mutual
theorem Statement.brings (hnamed : ∀ t : Ty, t.Named → P t) {ts : List Token} {s : Stmt} :
    Statement ts s → RawBrings P ts → s.Brings P
  | .declare _ _ _ hv _, hraw => by
    simp only [rawBrings_append, rawBrings_cons] at hraw
    exact brings_declare.mpr (hv.brings hnamed hraw.2.2.2.1)
  | .conditional _ hc hb, hraw => by
    simp only [rawBrings_append, rawBrings_cons] at hraw
    exact brings_conditional.mpr ⟨hc.brings hnamed hraw.2.1, hb.brings hnamed hraw.2.2, by simp⟩
  | .alternative _ hc hb _ ho, hraw => by
    simp only [rawBrings_append, rawBrings_cons] at hraw
    have hother := ho.brings hnamed hraw.2.2.2.2
    refine brings_conditional.mpr
      ⟨hc.brings hnamed hraw.2.1, hb.brings hnamed hraw.2.2.1, fun ss hss => ?_⟩
    exact Option.some.inj hss ▸ hother
  | .loop _ _ hi hc _ hstep _ hb, hraw => by
    simp only [rawBrings_append, rawBrings_cons] at hraw
    obtain ⟨_, _, hirs, hcrs, _, hsrs, _, hbrs⟩ := hraw
    exact brings_loop.mpr ⟨⟨hc.brings hnamed hcrs, hstep.brings hnamed hsrs⟩,
      hi.brings hnamed hirs, hb.brings hnamed hbrs⟩
  | .prototype _ hh _, _ => brings_prototype.mpr (hh.brings hnamed)
  | .function _ hh hb, hraw => by
    simp only [rawBrings_append, rawBrings_cons] at hraw
    exact brings_function.mpr ⟨hh.brings hnamed, hb.brings hnamed hraw.2.2⟩
  | .retNone _ _, _ => brings_ret.mpr (by simp)
  | .ret _ hv _, hraw => by
    simp only [rawBrings_append, rawBrings_cons] at hraw
    refine brings_ret.mpr fun v hv' => ?_
    exact Option.some.inj hv' ▸ hv.brings hnamed hraw.2.1
  | .raw ht, hraw | .rawEnded ht _, hraw => brings_raw.mpr ((rawBrings_cons.mp hraw).1 ht)
  | .call h _, hraw => Stmt.brings_call.mpr (h.brings hnamed (rawBrings_append.mp hraw).1)
  | .assign h _, hraw => Stmt.brings_assign.mpr (h.brings hnamed (rawBrings_append.mp hraw).1)

theorem Block.brings (hnamed : ∀ t : Ty, t.Named → P t) {ts : List Token} {body : List Stmt} :
    Block ts body → RawBrings P ts → ∀ s ∈ body, s.Brings P
  | .braces _ h _, hraw => by
    simp only [rawBrings_append, rawBrings_cons] at hraw
    exact h.brings hnamed hraw.2.1

theorem Otherwise.brings (hnamed : ∀ t : Ty, t.Named → P t) {ts : List Token}
    {body : List Stmt} : Otherwise ts body → RawBrings P ts → ∀ s ∈ body, s.Brings P
  | .block h, hraw => h.brings hnamed hraw
  | .chained h, hraw => List.forall_mem_singleton.mpr (h.brings hnamed hraw)

theorem Statements.brings (hnamed : ∀ t : Ty, t.Named → P t) {ts : List Token}
    {ss : List Stmt} : Statements ts ss → RawBrings P ts → ∀ s ∈ ss, s.Brings P
  | .nil, _ => List.forall_mem_nil _
  | .cons h hs, hraw => by
    obtain ⟨hfirst, hrest⟩ := rawBrings_append.mp hraw
    exact List.forall_mem_cons.mpr ⟨h.brings hnamed hfirst, hs.brings hnamed hrest⟩
end

end Grammar

/-- Parsed programs bring the types that have a name, and `any` for raw text. -/
theorem parse_brings {P : Ty → Prop} (hnamed : ∀ t : Ty, t.Named → P t) {tokens : List Token}
    {file : String} {p : Program} (h : parse tokens file = .ok p)
    (hraw : Grammar.RawBrings P tokens) : ∀ s ∈ p, s.Brings P := by
  obtain ⟨ts, hc, hts, _⟩ := Parse.program_sound _ ⟨h, rfl⟩
  refine hts.brings hnamed fun t ht => hraw t ?_
  have hahead : t ∈ (Cursor.ofTokens tokens file).ahead := by
    rw [hc]
    exact List.mem_append_left _ ht
  exact Cursor.mem_of_mem_ofTokens hahead

/-- **Parsed programs stay inside the types that have a name.** Nothing in them is
unrecognized, and no type that lowering meets is unknown, even where it fails later on.
Without raw text every one of them has a name, and what is written is declared with the words
of C alone. -/
theorem parsed_types_named (tokens : List Token) (file : String) (p : Program)
    (h : parse tokens file = .ok p) :
    p.Recognized ∧ (∀ v ∈ Stmt.traceAll .root p, v.Meets (· ≠ .unknown)) ∧
      ((∀ t ∈ tokens, t.kind ≠ .rawCode) →
        (∀ v ∈ Stmt.traceAll .root p, v.Meets Ty.Named) ∧
        ∀ code, p.lower = .ok code →
          code = Layout.joinLines (Item.textAll "" p.account.written) ∧
          Item.BackedAll (fun t => t.spelling ∈ ["float", "double", "int", "char*", "void"])
            p.account.written) := by
  refine ⟨Program.recognized_of_surface (parse_surface h), ?_, fun hraw => ⟨?_, fun code hcode => ?_⟩⟩
  · have hbrings := parse_brings (P := (· ≠ .unknown)) (fun _ => Ty.Named.ne_unknown) h
      fun _ _ _ => by simp
    exact Stmt.traceAll_meets .root p hbrings
  · have hbrings := parse_brings (P := Ty.Named) (fun _ ht => ht) h
      fun t ht hkind => absurd hkind (hraw t ht)
    exact Stmt.traceAll_meets .root p hbrings
  · have hbrings := parse_brings (fun _ => Ty.Named.spelling_mem) h
      fun t ht hkind => absurd hkind (hraw t ht)
    obtain ⟨⟨codes, last⟩, hlower, hcode⟩ := bind_eq_ok.mp hcode
    cases hcode
    obtain ⟨rfl, _⟩ := Stmt.lowerAll_account (σ := .root) p hlower 0
    exact ⟨rfl, Stmt.accountAll_backed (σ := .root) .root p hbrings hlower 0⟩

/-- The tokens of `fn low(x: F32) -> Bool { return x < 2.0f; } let y = low(1.0f);`. -/
def lowTokens : List Token :=
  [(.kwFn, "fn"), (.identifier, "low"), (.openParen, "("), (.identifier, "x"), (.colon, ":"),
    (.identifier, "F32"), (.closeParen, ")"), (.arrow, "->"), (.identifier, "Bool"),
    (.openCurly, "\x7b"), (.kwReturn, "return"), (.identifier, "x"), (.less, "<"),
    (.number, "2.0f"), (.semicolon, ";"), (.closeCurly, "\x7d"), (.kwLet, "let"),
    (.identifier, "y"), (.assignment, "="), (.identifier, "low"), (.openParen, "("),
    (.number, "1.0f"), (.closeParen, ")"), (.semicolon, ";")].map fun (kind, value) =>
      ⟨kind, value, ⟨0, 0, "main.lc"⟩⟩

def lowProgram : Program :=
  [.function "low" ⟨[⟨"x", .f32⟩], .bool⟩
      [.ret (some (.binary .lessThan (.symbol "x") (.float "2.0f")))],
    .declare "y" (.call "low" [.float "1.0f"])]

def lowCode : String :=
  "int low(float x) \x7b\n  return x < 2.0f;\n\x7d\n\nint y = low(1.0f);"

theorem parsed_types_named_low :
    parse lowTokens "main.lc" = .ok lowProgram ∧ (∀ t ∈ lowTokens, t.kind ≠ .rawCode) ∧
      lowProgram.lower = .ok lowCode ∧
      (∀ v ∈ Stmt.traceAll .root lowProgram, v.Meets Ty.Named) ∧
      Item.BackedAll (fun t => t.spelling ∈ ["float", "double", "int", "char*", "void"])
        lowProgram.account.written := by
  have hparse : parse lowTokens "main.lc" = .ok lowProgram := by cbv
  have hraw : ∀ t ∈ lowTokens, t.kind ≠ .rawCode := by simp [lowTokens]
  have hlower : lowProgram.lower = .ok lowCode := by rfl
  obtain ⟨_, _, h⟩ := parsed_types_named lowTokens "main.lc" lowProgram hparse
  exact ⟨hparse, hraw, hlower, (h hraw).1, ((h hraw).2 lowCode hlower).2⟩

end LittleC

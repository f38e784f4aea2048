import Mathlib.Data.List.Perm.Basic
import LittleC.Proofs.Typing

/-! The type of sums, differences, products and quotients. Whether two types may meet is not
transitive, and the check is made at every node; still the type of an arithmetic expression
is a matter of its operands alone, in whatever order and grouping they are written.

`Ty.Common ts t` says, by membership only, that `t` is the type of values of the types `ts`
together. `hasType_iff_operands`: an expression has the type that is common to the types of its
operands. -/
namespace LittleC

namespace Ty

/-- The one type of these that is not `any`, or `any` if there is no other. An unknown type has
nothing in common with another. -/
structure Common (ts : List Ty) (t : Ty) : Prop where
  mem : t ∈ ts
  same : ∀ a ∈ ts, a = .any ∨ a = t
  known : 2 ≤ ts.length → unknown ∉ ts

theorem common_singleton {a t : Ty} : Common [a] t ↔ a = t := by
  constructor
  · intro h
    exact (List.mem_singleton.mp h.mem).symm
  · rintro rfl
    exact ⟨by simp, by simp, by simp⟩

variable {ts us : List Ty} {a b t : Ty}

theorem Common.perm (h : Common ts t) (hp : ts.Perm us) : Common us t where
  mem := hp.mem_iff.mp h.mem
  same := fun a ha => h.same a (hp.mem_iff.mpr ha)
  known := fun hlen hu => h.known (hp.length_eq ▸ hlen) (hp.mem_iff.mpr hu)

/-- What two types that may meet become when they do. -/
theorem Fits.unify_cases (h : a.Fits b) :
    (a = .any ∧ a.unify b = b) ∨ (b = .any ∧ a.unify b = a) ∨ (a = b ∧ a.unify b = a) := by
  obtain ⟨_, _, hmeet⟩ := h
  by_cases ha : a = .any
  · exact .inl ⟨ha, if_pos ha⟩
  · have hunify : a.unify b = a := if_neg ha
    rcases hmeet with hany | hany | heq
    · exact absurd hany ha
    · exact .inr (.inl ⟨hany, hunify⟩)
    · exact .inr (.inr ⟨heq, hunify⟩)

theorem Common.not_unknown (h : Common ts a) (ha : a ≠ .unknown) : unknown ∉ ts := by
  intro hu
  rcases h.same _ hu with heq | heq
  · cases heq
  · exact ha heq.symm

theorem Common.append (hts : Common ts a) (hus : Common us b) (hfits : a.Fits b) :
    Common (ts ++ us) (a.unify b) := by
  have hunknown : unknown ∉ ts ++ us := by
    rw [List.mem_append, not_or]
    exact ⟨hts.not_unknown hfits.1, hus.not_unknown hfits.2.1⟩
  rcases hfits.unify_cases with ⟨rfl, hunify⟩ | ⟨rfl, hunify⟩ | ⟨rfl, hunify⟩
  all_goals rw [hunify]
  · refine ⟨List.mem_append_right _ hus.mem, fun c hc => ?_, fun _ => hunknown⟩
    rcases List.mem_append.mp hc with hc | hc
    · exact .inl ((hts.same c hc).elim id id)
    · exact hus.same c hc
  · refine ⟨List.mem_append_left _ hts.mem, fun c hc => ?_, fun _ => hunknown⟩
    rcases List.mem_append.mp hc with hc | hc
    · exact hts.same c hc
    · exact .inl ((hus.same c hc).elim id id)
  · refine ⟨List.mem_append_left _ hts.mem, fun c hc => ?_, fun _ => hunknown⟩
    exact (List.mem_append.mp hc).elim (hts.same c) (hus.same c)

/-- Some of the types that `t` is common to have a common type of their own: `t` again, or `any`
if it is not among them. -/
theorem Common.part (hne : ts ≠ []) (hsame : ∀ a ∈ ts, a = .any ∨ a = t)
    (hknown : unknown ∉ ts) :
    ∃ a, Common ts a ∧ a ≠ .unknown ∧ (a = t ∨ a = .any ∧ t ∉ ts) := by
  by_cases ht : t ∈ ts
  · exact ⟨t, ⟨ht, hsame, fun _ => hknown⟩, fun h => hknown (h ▸ ht), .inl rfl⟩
  · have hany : ∀ a ∈ ts, a = .any := fun a ha =>
      (hsame a ha).resolve_right fun h => ht (h ▸ ha)
    obtain ⟨a, ha⟩ := List.exists_mem_of_ne_nil ts hne
    exact ⟨.any, ⟨hany a ha ▸ ha, fun a ha => .inl (hany a ha), fun _ => hknown⟩, by simp,
      .inr ⟨rfl, ht⟩⟩

/-- **Where two groups of operands meet, only all the types together matter.** -/
theorem common_append (hts : ts ≠ []) (hus : us ≠ []) :
    Common (ts ++ us) t ↔ ∃ a b, Common ts a ∧ Common us b ∧ a.Fits b ∧ a.unify b = t := by
  constructor
  · intro h
    have hlen : 2 ≤ (ts ++ us).length := by
      have := List.length_pos_iff.mpr hts
      have := List.length_pos_iff.mpr hus
      rw [List.length_append]
      omega
    obtain ⟨hknown, hknown'⟩ := not_or.mp (mt List.mem_append.mpr (h.known hlen))
    obtain ⟨a, ha, hane, hat⟩ :=
      Common.part hts (fun c hc => h.same c (List.mem_append_left _ hc)) hknown
    obtain ⟨b, hb, hbne, hbt⟩ :=
      Common.part hus (fun c hc => h.same c (List.mem_append_right _ hc)) hknown'
    refine ⟨a, b, ha, hb, ?_⟩
    rcases hat with rfl | ⟨rfl, hnot⟩
    · rcases hbt with rfl | ⟨rfl, _⟩
      · exact ⟨⟨hane, hbne, .inr (.inr rfl)⟩, by simp [unify]⟩
      · refine ⟨⟨hane, hbne, .inr (.inl rfl)⟩, ?_⟩
        by_cases hany : a = .any <;> simp [unify, hany]
    · rcases hbt with rfl | ⟨_, hnot'⟩
      · exact ⟨⟨hane, hbne, .inl rfl⟩, by simp [unify]⟩
      · exact absurd h.mem (by simp [hnot, hnot'])
  · rintro ⟨a, b, ha, hb, hfits, rfl⟩
    exact ha.append hb hfits

/-- The types of two operands or more have something in common when none is unknown and those
that are not `any` are the same. -/
theorem exists_common_iff (hlen : 2 ≤ ts.length) : (∃ t, Common ts t) ↔
    (∀ a ∈ ts, a ≠ .unknown) ∧ ∀ a ∈ ts, ∀ b ∈ ts, a ≠ .any → b ≠ .any → a = b := by
  constructor
  · rintro ⟨t, h⟩
    refine ⟨fun a ha hu => h.known hlen (hu ▸ ha), fun a ha b hb hna hnb => ?_⟩
    rw [(h.same a ha).resolve_left hna, (h.same b hb).resolve_left hnb]
  · rintro ⟨hne, hsame⟩
    have hknown : unknown ∉ ts := fun hu => hne _ hu rfl
    by_cases hall : ∀ a ∈ ts, a = .any
    · obtain ⟨a, ha⟩ := List.exists_mem_of_length_pos (Nat.lt_of_lt_of_le Nat.zero_lt_two hlen)
      exact ⟨.any, hall a ha ▸ ha, fun b hb => .inl (hall b hb), fun _ => hknown⟩
    · simp only [not_forall] at hall
      obtain ⟨t, ht, hnot⟩ := hall
      refine ⟨t, ht, fun a ha => ?_, fun _ => hknown⟩
      by_cases hany : a = .any
      · exact .inl hany
      · exact .inr (hsame a ha t ht hany hnot)

end Ty

namespace Expr

/-- The operands of an arithmetic expression from left to right, none of which is arithmetic
itself. Any other expression is its own operand. -/
def operands : Expr → List Expr
  | binary op left right =>
    if op.isComparison then [binary op left right] else operands left ++ operands right
  | e => [e]

theorem operands_ne_nil (e : Expr) : e.operands ≠ [] := by
  fun_induction operands e with
  | case1 op left right hop => simp
  | case2 op left right hop hleft hright => simp [hleft]
  | case3 e _ => simp

end Expr

variable {E : Env}

/-- An operand that is the only one. -/
theorem hasType_iff_single {e : Expr} {t : Ty} :
    HasType E e t ↔ ∃ ts, List.Forall₂ (HasType E) [e] ts ∧ Ty.Common ts t := by
  constructor
  · intro h
    exact ⟨[t], .cons h .nil, Ty.common_singleton.mpr rfl⟩
  · rintro ⟨ts, hts, hcommon⟩
    cases hts with
    | cons h hnil =>
      cases hnil
      exact Ty.common_singleton.mp hcommon ▸ h

/-- An arithmetic node has the type in which its sides meet. -/
theorem hasType_arithmetic {op : BinaryOp} (hop : ¬ op.isComparison = true) {left right : Expr}
    {t : Ty} : HasType E (.binary op left right) t ↔
      ∃ a b, HasType E left a ∧ HasType E right b ∧ a.Fits b ∧ a.unify b = t := by
  constructor
  · intro h
    cases h with
    | binary hl hr hfits => exact ⟨_, _, hl, hr, hfits, (if_neg hop).symm⟩
  · rintro ⟨a, b, hl, hr, hfits, rfl⟩
    have h : HasType E (.binary op left right) _ := .binary hl hr hfits
    rwa [if_neg hop] at h

/-- **The type of an expression is the common type of its operands**, whatever its shape. -/
theorem hasType_iff_operands (e : Expr) (t : Ty) :
    HasType E e t ↔ ∃ ts, List.Forall₂ (HasType E) e.operands ts ∧ Ty.Common ts t := by
  fun_induction Expr.operands e generalizing t with
  | case1 op left right hop => exact hasType_iff_single
  | case2 op left right hop ihleft ihright =>
    have hne : ∀ {e : Expr} {ts : List Ty}, List.Forall₂ (HasType E) e.operands ts → ts ≠ [] := by
      rintro e ts hts rfl
      exact e.operands_ne_nil (List.forall₂_nil_right_iff.mp hts)
    rw [hasType_arithmetic hop]
    constructor
    · rintro ⟨a, b, hl, hr, hfits, rfl⟩
      obtain ⟨ts, hts, ha⟩ := (ihleft a).mp hl
      obtain ⟨us, hus, hb⟩ := (ihright b).mp hr
      exact ⟨ts ++ us, List.rel_append hts hus, ha.append hb hfits⟩
    · rintro ⟨all, hall, hcommon⟩
      have hts := List.forall₂_take left.operands.length hall
      have hus := List.forall₂_drop left.operands.length hall
      rw [List.take_left] at hts
      rw [List.drop_left] at hus
      rw [← List.take_append_drop left.operands.length all] at hcommon
      obtain ⟨a, b, ha, hb, hmeet⟩ := (Ty.common_append (hne hts) (hne hus)).mp hcommon
      exact ⟨a, b, (ihleft a).mpr ⟨_, hts, ha⟩, (ihright b).mpr ⟨_, hus, hb⟩, hmeet⟩
  | case3 e _ => exact hasType_iff_single

/-- The order of the operands and their grouping do not matter. -/
theorem hasType_of_perm {e e' : Expr} (hp : e'.operands.Perm e.operands) {t : Ty}
    (h : HasType E e t) : HasType E e' t := by
  obtain ⟨ts, hts, hcommon⟩ := (hasType_iff_operands e t).mp h
  obtain ⟨us, hus, hperm⟩ := List.perm_comp_forall₂ hp hts
  exact (hasType_iff_operands e' t).mpr ⟨us, hus, hcommon.perm hperm.symm⟩

variable {scope : Scope}

theorem hasType_unique {e : Expr} {t u : Ty} (ht : HasType scope.lookup e t)
    (hu : HasType scope.lookup e u) : t = u := by
  have heq := (Expr.lower_of_hasType ht).symm.trans (Expr.lower_of_hasType hu)
  cases heq
  rfl

theorem exists_lower_iff {e : Expr} {t : Ty} :
    (∃ code, e.lower scope = .ok ⟨code, t⟩) ↔ HasType scope.lookup e t := by
  constructor
  · rintro ⟨code, h⟩
    exact Expr.lower_hasType e h
  · intro h
    exact ⟨_, Expr.lower_of_hasType h⟩

/-- Expressions that are all lowered have the types they are lowered with. -/
theorem forall₂_of_lowerAll {es : List Expr} {vs : List Lowered}
    (h : Expr.lowerAll scope es = .ok vs) :
    List.Forall₂ (HasType scope.lookup) es (vs.map Lowered.type) := by
  induction es generalizing vs with
  | nil =>
    cases h
    exact .nil
  | cons e rest ih =>
    simp only [Expr.lowerAll, bind_eq_ok] at h
    obtain ⟨v, hv, vs', hvs, h⟩ := h
    cases h
    exact .cons (Expr.lower_hasType e hv) (ih hvs)

/-- An expression whose operands can be lowered has the types common to theirs, and no others. -/
theorem hasType_iff_common {e : Expr} {vs : List Lowered}
    (h : Expr.lowerAll scope e.operands = .ok vs) {t : Ty} :
    HasType scope.lookup e t ↔ Ty.Common (vs.map Lowered.type) t := by
  have hvs := forall₂_of_lowerAll h
  rw [hasType_iff_operands]
  constructor
  · rintro ⟨ts, hts, hcommon⟩
    have hunique : Relator.RightUnique (HasType scope.lookup) := fun _ _ _ => hasType_unique
    rwa [hunique.forall₂ hts hvs] at hcommon
  · intro hcommon
    exact ⟨_, hvs, hcommon⟩

/-- **The type of an arithmetic expression depends on the types of its operands alone.** Let two
operands or more be lowered by themselves. The expression is lowered exactly if none of their
types is unknown and those that are not `any` are the same; its type is then that one, or
`any` if there is no other. Any expression with the same operands, in another order or grouped
in another way or joined by other arithmetic operators, is lowered to the same type or not at
all, too. -/
theorem arithmetic_typing (scope : Scope) (e : Expr) (vs : List Lowered)
    (htree : 2 ≤ e.operands.length) (h : Expr.lowerAll scope e.operands = .ok vs) :
    ((∃ v, e.lower scope = .ok v) ↔
      (∀ v ∈ vs, v.type ≠ .unknown) ∧
      ∀ v ∈ vs, ∀ w ∈ vs, v.type ≠ .any → w.type ≠ .any → v.type = w.type) ∧
    (∀ r, e.lower scope = .ok r →
      (∀ v ∈ vs, v.type ≠ .any → r.type = v.type) ∧
      ((∀ v ∈ vs, v.type = .any) → r.type = .any)) ∧
    ∀ e' : Expr, e'.operands.Perm e.operands → ∀ t : Ty,
      (∃ code, e'.lower scope = .ok ⟨code, t⟩) ↔ ∃ code, e.lower scope = .ok ⟨code, t⟩ := by
  have hlen : 2 ≤ (vs.map Lowered.type).length := by
    rw [← (forall₂_of_lowerAll h).length_eq]
    exact htree
  refine ⟨?_, fun r hr => ?_, fun e' hp t => ?_⟩
  · have htyped : (∃ v, e.lower scope = .ok v) ↔ ∃ t, HasType scope.lookup e t := by
      constructor
      · rintro ⟨v, hv⟩
        exact ⟨v.type, Expr.lower_hasType e hv⟩
      · rintro ⟨t, ht⟩
        exact ⟨_, Expr.lower_of_hasType ht⟩
    rw [htyped]
    simp only [hasType_iff_common h, Ty.exists_common_iff hlen, List.forall_mem_map]
  · have hcommon := (hasType_iff_common h).mp (Expr.lower_hasType e hr)
    refine ⟨fun v hv hany => ?_, fun hall => ?_⟩
    · exact ((hcommon.same _ (List.mem_map_of_mem hv)).resolve_left hany).symm
    · obtain ⟨v, hv, hmem⟩ := List.mem_map.mp hcommon.mem
      rw [← hmem, hall v hv]
  · rw [exists_lower_iff, exists_lower_iff]
    exact ⟨hasType_of_perm hp.symm, hasType_of_perm hp⟩

/-- Raw text on both sides of a product of a number and raw text. -/
def scaled : Expr :=
  .binary .minus (.binary .plus (.raw "n") (.binary .multiply (.double "1.5") (.raw "k")))
    (.raw "m")

theorem arithmetic_typing_scaled :
    (2 ≤ scaled.operands.length ∧
      Expr.lowerAll .root scaled.operands =
        .ok [⟨"n", .any⟩, ⟨"1.5", .f64⟩, ⟨"k", .any⟩, ⟨"m", .any⟩]) ∧
    (∃ r, scaled.lower .root = .ok r ∧ r.type = .f64) ∧
    ∃ code, Expr.lower .root (.binary .divide (.double "1.5") (.binary .minus (.raw "m")
      (.binary .plus (.raw "k") (.raw "n")))) = .ok ⟨code, .f64⟩ := by
  have htree : 2 ≤ scaled.operands.length := by decide
  have hall : Expr.lowerAll .root scaled.operands =
      .ok [⟨"n", .any⟩, ⟨"1.5", .f64⟩, ⟨"k", .any⟩, ⟨"m", .any⟩] := rfl
  obtain ⟨haccept, htype, horder⟩ := arithmetic_typing .root scaled _ htree hall
  obtain ⟨r, hr⟩ := haccept.mpr (by decide)
  have hf64 : r.type = .f64 := (htype r hr).1 ⟨"1.5", .f64⟩ (by decide) (by decide)
  refine ⟨⟨htree, hall⟩, ⟨r, hr, hf64⟩, (horder _ ?_ _).mpr ⟨r.code, ?_⟩⟩
  · decide
  · rw [hr, ← hf64]

end LittleC

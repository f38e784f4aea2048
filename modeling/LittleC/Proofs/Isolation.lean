import LittleC.Proofs.Holes

/-! Bodies by themselves. `body_isolated`: a body can be exchanged for another that is lowered
at the same site, and nothing around it changes, neither its text nor the chain that anything
else is lowered in. The text comes from `BlockHole.surrounds`. For the chains, the trace of
lowering is followed through the hole (`BlockHole.sees`): the statements around the body are
lowered in chains that it has no part in, and what comes behind them is lowered in the chain
that they leave, or not at all, whatever the body. -/
namespace LittleC

/-! ### The chains around a body -/

namespace Visit

/-- The chain that an expression or a statement is lowered in. -/
def scope? : Visit → Option Scope
  | expr scope _ => some scope
  | stmt scope _ => some scope
  | condition _ => none

/-- All chains that something is lowered in, in order. -/
def scopes (visits : List Visit) : List Scope :=
  visits.filterMap scope?

theorem scopes_append (a b : List Visit) : scopes (a ++ b) = scopes a ++ scopes b :=
  List.filterMap_append

end Visit

/-- Apart from what is lowered in the body, the chains are the same for every body that is
lowered at the site. -/
def Sees (scope : Scope) (indent : String) (f : List Stmt → List Visit) : Prop :=
  ∃ front back, ∀ body text, Stmt.lowerBlock scope indent body = .ok text →
    Visit.scopes (f body) = front ++ (Visit.scopes (Stmt.traceAll scope body) ++ back)

namespace Sees

variable {scope : Scope} {indent : String} {f f' : List Stmt → List Visit}

theorem congr (h : Sees scope indent f) (heq : ∀ body, f' body = f body) : Sees scope indent f' :=
  funext heq ▸ h

theorem here (scope : Scope) (indent : String) : Sees scope indent (Stmt.traceAll scope) :=
  ⟨[], [], by simp⟩

/-- The statement around the body is lowered in one chain, whatever the body. -/
theorem around (h : Sees scope indent f) (outer : Scope) (s : List Stmt → Stmt) :
    Sees scope indent fun body => .stmt outer (s body) :: f body := by
  obtain ⟨front, back, h⟩ := h
  exact ⟨outer :: front, back, fun body text htext => congrArg (outer :: ·) (h body text htext)⟩

theorem before (h : Sees scope indent f) (visits : List Visit) :
    Sees scope indent fun body => visits ++ f body := by
  obtain ⟨front, back, h⟩ := h
  refine ⟨Visit.scopes visits ++ front, back, fun body text htext => ?_⟩
  rw [Visit.scopes_append, h body text htext, List.append_assoc]

theorem behind (h : Sees scope indent f) {g : List Stmt → List Visit}
    (hg : ∃ visits, ∀ body text, Stmt.lowerBlock scope indent body = .ok text → g body = visits) :
    Sees scope indent fun body => f body ++ g body := by
  obtain ⟨front, back, h⟩ := h
  obtain ⟨visits, hg⟩ := hg
  refine ⟨front, back ++ Visit.scopes visits, fun body text htext => ?_⟩
  rw [Visit.scopes_append, h body text htext, hg body text htext]
  simp only [List.append_assoc]

end Sees

theorem Stmt.traceAll_append (scope : Scope) (a b : List Stmt) :
    traceAll scope (a ++ b) =
      traceAll scope a ++ Visit.thenIf (lowerAll scope "" a) fun r => traceAll r.2 b := by
  induction a generalizing scope with
  | nil => rfl
  | cons s rest ih =>
    rw [List.cons_append, traceAll, traceAll, lowerAll]
    cases s.lower scope "" with
    | error e => simp [Visit.thenIf, bind, Except.bind]
    | ok l =>
      simp only [Visit.thenIf]
      rw [ih]
      dsimp only [bind, Except.bind]
      cases lowerAll l.scope "" rest <;> simp [Visit.thenIf, pure, Except.pure]

section Behind
variable {scope outer : Scope} {indent indent' : String}

/-- What comes behind a statement is lowered in one chain, or not at all, whatever the body
in it. -/
theorem StmtHole.behind {hole : StmtHole} (hsite : hole.site outer indent' = .ok (scope, indent))
    (next : Scope → List Visit) :
    ∃ visits, ∀ body text, Stmt.lowerBlock scope indent body = .ok text →
      Visit.thenIf ((hole.fill body).lower outer "") (fun l => next l.scope) = visits := by
  have hcode := hole.surrounds outer indent'
  rw [hsite] at hcode
  rcases hcode.uniform with ⟨e, hfail⟩ | ⟨opening, closing, hok⟩
  · refine ⟨[], fun body text htext => ?_⟩
    cases hl : (hole.fill body).lower outer "" with
    | error e => rfl
    | ok l =>
      obtain ⟨code, hl'⟩ := Stmt.lower_reindent hl indent'
      have hfail := hfail body text htext
      rw [Stmt.lowerCode, hl'] at hfail
      cases hfail
  · refine ⟨next ((hole.fill []).after outer), fun body text htext => ?_⟩
    have hlower := Stmt.lower_eq outer indent' (hole.fill body)
    rw [hok body text htext] at hlower
    obtain ⟨code, hl⟩ := Stmt.lower_reindent hlower ""
    rw [hl, Stmt.after_fill]
    rfl

theorem BlockHole.behind {hole : BlockHole} (hsite : hole.site outer indent' = .ok (scope, indent))
    (next : List Visit) :
    ∃ visits, ∀ body text, Stmt.lowerBlock scope indent body = .ok text →
      Visit.thenIf (Stmt.lowerAll outer "" (hole.fill body)) (fun _ => next) = visits := by
  have hcode := hole.surrounds outer indent'
  rw [hsite] at hcode
  rcases hcode.uniform with ⟨e, hfail⟩ | ⟨opening, closing, hok⟩
  · refine ⟨[], fun body text htext => ?_⟩
    cases hl : Stmt.lowerAll outer "" (hole.fill body) with
    | error e => rfl
    | ok r =>
      obtain ⟨codes, hl'⟩ := Stmt.lowerAll_reindent hl indent'
      have hfail := hfail body text htext
      rw [Stmt.lowerBlock, hl'] at hfail
      cases hfail
  · refine ⟨next, fun body text htext => ?_⟩
    obtain ⟨r, hr, _⟩ := bind_eq_ok.mp (hok body text htext)
    obtain ⟨codes, hl⟩ := Stmt.lowerAll_reindent hr ""
    rw [hl]
    rfl

end Behind

mutual
theorem StmtHole.sees {scope outer : Scope} {indent indent' : String} : (hole : StmtHole) →
    hole.site outer indent' = .ok (scope, indent) →
    Sees scope indent fun body => (hole.fill body).trace outer
  | .function name signature hole, h => by
    refine ((hole.sees h).around outer fun body => .function name signature (hole.fill body)).congr
      fun body => ?_
    rw [StmtHole.fill, Stmt.trace]
  | .conditional condition hole none, h => by
    simp only [StmtHole.site, bind_eq_ok] at h
    obtain ⟨c, hc, h⟩ := h
    refine (((hole.sees h).before (condition.trace outer ++ [.condition c])).around outer
      fun body => .conditional condition (hole.fill body) none).congr fun body => ?_
    rw [StmtHole.fill, Stmt.trace, hc]
    simp [Visit.thenIf]
  | .conditional condition hole (some otherwise), h => by
    simp only [StmtHole.site, bind_eq_ok] at h
    obtain ⟨c, hc, h⟩ := h
    refine ((((hole.sees h).behind (hole.behind h (Stmt.traceAll outer.push otherwise))).before
      (condition.trace outer ++ [.condition c])).around outer
      fun body => .conditional condition (hole.fill body) (some otherwise)).congr fun body => ?_
    rw [StmtHole.fill, Stmt.trace, hc]
    simp [Visit.thenIf]
  | .alternative condition first hole, h => by
    simp only [StmtHole.site, Stmt.lowerBlock, bind_eq_ok] at h
    obtain ⟨c, hc, _, ⟨⟨codes, last⟩, hfirst, _⟩, h⟩ := h
    obtain ⟨_, hfirst⟩ := Stmt.lowerAll_reindent hfirst ""
    refine (((hole.sees h).before (condition.trace outer ++ .condition c ::
      Stmt.traceAll outer.push first)).around outer
      fun body => .conditional condition first (some (hole.fill body))).congr fun body => ?_
    rw [StmtHole.fill, Stmt.trace, hc]
    simp [Visit.thenIf, hfirst]
  | .loop initial condition step hole, h => by
    simp only [StmtHole.site, bind_eq_ok] at h
    obtain ⟨i, hi, c, hc, s, hs, h⟩ := h
    refine (((hole.sees h).before (initial.trace outer.push ++ (condition.trace i.scope ++
      step.trace i.scope))).around outer
      fun body => .loop initial condition step (hole.fill body)).congr fun body => ?_
    rw [StmtHole.fill, Stmt.trace, hi]
    simp [Visit.thenIf, hc, hs]
  | .initial hole condition step rest, h => by
    have hrest := hole.behind h fun inner =>
      condition.trace inner ++ Visit.thenIf (condition.lower inner) fun _ =>
        step.trace inner ++ Visit.thenIf (step.lower inner) fun _ => Stmt.traceAll inner.push rest
    refine (((hole.sees h).behind hrest).around outer
      fun body => .loop (hole.fill body) condition step rest).congr fun body => ?_
    rw [StmtHole.fill, Stmt.trace]

theorem BlockHole.sees {scope outer : Scope} {indent indent' : String} : (hole : BlockHole) →
    hole.site outer indent' = .ok (scope, indent) →
    Sees scope indent fun body => Stmt.traceAll outer (hole.fill body)
  | .here, h => by
    cases h
    exact .here _ _
  | .within before hole behind, h => by
    simp only [BlockHole.site, bind_eq_ok] at h
    obtain ⟨⟨codes, mid⟩, hbefore, h⟩ := h
    obtain ⟨_, hbefore⟩ := Stmt.lowerAll_reindent hbefore ""
    refine (((hole.sees h).behind (hole.behind h fun last => Stmt.traceAll last behind)).before
      (Stmt.traceAll outer before)).congr fun body => ?_
    rw [BlockHole.fill, Stmt.traceAll_append, hbefore]
    simp only [Visit.thenIf, Stmt.traceAll]
end

/-! ### Exchange of bodies -/

/-- The two fail with the same error, or give the two texts with the same text around them. -/
def SameAround (a b : String) (x y : Except Error String) : Prop :=
  (∃ e, x = .error e ∧ y = .error e) ∨
    ∃ opening closing, x = .ok (opening ++ a ++ closing) ∧ y = .ok (opening ++ b ++ closing)

/-- **Bodies are isolated.** Take a program and any body in it, and two bodies that are
lowered where lowering comes to that body, if it does. The programs with the one and with the
other fail with the same error, or both are lowered, to the same text around the texts of the
bodies. Everything outside the body is lowered in the same chains; with an empty body for one
of the two, nothing outside a body sees what the body declares. -/
theorem body_isolated (hole : BlockHole) (old new : List Stmt)
    (h : ∀ scope indent, hole.site .root "" = .ok (scope, indent) →
      (∃ a, Stmt.lowerBlock scope indent old = .ok a) ∧
        ∃ b, Stmt.lowerBlock scope indent new = .ok b) :
    match hole.site .root "" with
    | .error e => Program.lower (hole.fill old) = .error e ∧ Program.lower (hole.fill new) = .error e
    | .ok (scope, indent) => ∃ a b, Stmt.lowerBlock scope indent old = .ok a ∧
        Stmt.lowerBlock scope indent new = .ok b ∧
        SameAround a b (Program.lower (hole.fill old)) (Program.lower (hole.fill new)) ∧
        ∃ front back, ∀ body ∈ [old, new],
          Visit.scopes (Stmt.traceAll .root (hole.fill body)) =
            front ++ (Visit.scopes (Stmt.traceAll scope body) ++ back) := by
  have hlower := hole.surrounds .root ""
  cases hsite : hole.site .root "" with
  | error e =>
    obtain ⟨rest, hrest⟩ := hsite ▸ hlower
    exact ⟨hrest old, hrest new⟩
  | ok site =>
    obtain ⟨scope, indent⟩ := site
    rw [hsite] at hlower
    obtain ⟨⟨a, ha⟩, b, hb⟩ := h scope indent hsite
    refine ⟨a, b, ha, hb, ?_, ?_⟩
    · rcases hlower.uniform with ⟨e, hfail⟩ | ⟨opening, closing, hok⟩
      · exact .inl ⟨e, hfail old a ha, hfail new b hb⟩
      · exact .inr ⟨opening, closing, hok old a ha, hok new b hb⟩
    · obtain ⟨front, back, hsees⟩ := hole.sees hsite
      refine ⟨front, back, fun body hbody => ?_⟩
      simp only [List.mem_cons, List.not_mem_nil, or_false] at hbody
      rcases hbody with rfl | rfl
      · exact hsees _ a ha
      · exact hsees _ b hb

/-- A function with a branch left open, between a declaration and what reads it. -/
def branchHole : BlockHole :=
  .within [] (.function "main" ⟨[], .i32⟩
    (.within [.declare "n" (.integer "1")]
      (.conditional (.binary .lessThan (.symbol "n") (.integer "2")) .here
        (some [.declare "m" (.symbol "n")]))
      [.ret (some (.symbol "n"))])) []

def branchScope : Scope :=
  ((Scope.root.enter "main" ⟨[], .i32⟩).bind "n" (.value .i32)).push

/-- A body that declares the name again, with another type. -/
def shadowing : List Stmt :=
  [.declare "n" (.string "a"), .declare "m" (.symbol "n")]

theorem body_isolated_shadowing :
    branchHole.site .root "" = .ok (branchScope, "    ") ∧
      ∃ a b, Stmt.lowerBlock branchScope "    " shadowing = .ok a ∧
        Stmt.lowerBlock branchScope "    " [] = .ok b ∧
        SameAround a b (Program.lower (branchHole.fill shadowing))
          (Program.lower (branchHole.fill [])) ∧
        ∃ front back, ∀ body ∈ [shadowing, []],
          Visit.scopes (Stmt.traceAll .root (branchHole.fill body)) =
            front ++ (Visit.scopes (Stmt.traceAll branchScope body) ++ back) := by
  have hsite : branchHole.site .root "" = .ok (branchScope, "    ") := by rfl
  have hold : Stmt.lowerBlock branchScope "    " shadowing =
      .ok "    char* n = \"a\";\n    char* m = n;" := by rfl
  have hnew : Stmt.lowerBlock branchScope "    " [] = .ok "" := by rfl
  have h := body_isolated branchHole shadowing [] (by
    intro scope indent hs
    cases hsite.symm.trans hs
    exact ⟨⟨_, hold⟩, _, hnew⟩)
  rw [hsite] at h
  exact ⟨hsite, h⟩

end LittleC

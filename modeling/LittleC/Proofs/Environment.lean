import LittleC.Scope

/-! Flat environments. A chain of frames says of every name what it stands for, or that
it stands for nothing; that is all a later look-up can see of it. A `Names` is this map by
itself, and each operation on chains is one on maps: to open an empty frame changes
nothing, to bind a name in the innermost frame is to overwrite it in the map, and to open
a frame with declarations is to overwrite their names in order. -/
namespace LittleC

/-- What each name stands for. -/
abbrev Names (α : Type) := String → Option α

namespace Names

variable {α : Type}

/-- Nothing is declared. -/
def empty : Names α :=
  fun _ => none

/-- Declares a name, over an earlier declaration of it. -/
def add (E : Names α) (name : String) (a : α) : Names α :=
  fun other => if other = name then some a else E other

/-- Declares names from left to right. -/
def addAll (E : Names α) : List (String × α) → Names α
  | [] => E
  | (name, a) :: rest => (E.add name a).addAll rest

@[simp] theorem add_self (E : Names α) (name : String) (a : α) : E.add name a name = some a :=
  if_pos rfl

theorem add_of_ne (E : Names α) {name other : String} (h : other ≠ name) (a : α) :
    E.add name a other = E other :=
  if_neg h

/-- What holds of a new declaration and of all the old ones holds of every one. -/
theorem of_add {E : Names α} {name : String} {a : α} {P : String → α → Prop} (hnew : P name a)
    (hold : ∀ other b, E other = some b → P other b) :
    ∀ other b, E.add name a other = some b → P other b := by
  intro other b hb
  by_cases h : other = name
  · subst h
    rw [add_self] at hb
    exact Option.some.inj hb ▸ hnew
  · rw [add_of_ne E h] at hb
    exact hold other b hb

/-- Declarations written into a frame one after the other, seen through that frame. -/
theorem lookup_insertAll (pairs : List (String × α)) (frame : List (String × α)) (E : Names α) :
    (fun name => ((Assoc.insertAll frame pairs).lookup name).or (E name)) =
      Names.addAll (fun name => (frame.lookup name).or (E name)) pairs := by
  induction pairs generalizing frame with
  | nil => rfl
  | cons pair rest ih =>
    obtain ⟨name, a⟩ := pair
    have hstep : (fun other => ((Assoc.insert name a frame).lookup other).or (E other)) =
        Names.add (fun other => (frame.lookup other).or (E other)) name a := by
      funext other
      rw [Assoc.lookup_insert, add]
      split <;> rfl
    rw [addAll, ← hstep, ← ih]
    rfl

/-- A frame made of declarations overwrites their names in order. -/
theorem lookup_ofPairs (pairs : List (String × α)) (E : Names α) :
    (fun name => ((Assoc.ofPairs pairs).lookup name).or (E name)) = E.addAll pairs :=
  lookup_insertAll pairs [] E

end Names

/-- What each name of a program stands for. -/
abbrev Env := Names Symbol

/-- The environment of a function's body: its own signature, then its parameters. -/
def Env.enter (E : Env) (name : String) (signature : Signature) : Env :=
  (E.add name (.function signature)).addAll
    (signature.params.map fun p => (p.name, .value p.type))

namespace Scope

theorem lookup_push_eq (s : Scope) : s.push.lookup = s.lookup := rfl

theorem lookup_bind_eq (s : Scope) (name : String) (symbol : Symbol) :
    (s.bind name symbol).lookup = Names.add s.lookup name symbol := by
  funext other
  exact lookup_bind s name other symbol

theorem function?_eq_some_iff {s : Scope} {name : String} {signature : Signature} :
    s.function? name = some signature ↔ s.lookup name = some (.function signature) := by
  unfold function?
  split
  · rename_i h
    rw [h]
    simp
  · rename_i h
    simp only [reduceCtorEq, false_iff]
    exact h signature

theorem assignable?_eq_some_iff {s : Scope} {name : String} {t : Ty} :
    s.assignable? name = some t ↔ s.lookup name = some (.value t) := by
  unfold assignable?
  split
  · rename_i h
    rw [h]
    simp
  · rename_i h
    simp only [reduceCtorEq, false_iff]
    exact h t

theorem lookup_pushFrame (s : Scope) (declarations : List (String × Symbol)) (name : String) :
    (s.pushFrame declarations).lookup name =
      ((Assoc.ofPairs declarations).lookup name).or (s.lookup name) := by
  rw [lookup_eq_or]
  rfl

theorem lookup_enter (s : Scope) (name : String) (signature : Signature) :
    (s.enter name signature).lookup = Env.enter s.lookup name signature := by
  rw [Env.enter, ← Names.addAll, ← Names.lookup_ofPairs]
  funext other
  exact lookup_pushFrame s _ other

end Scope
end LittleC

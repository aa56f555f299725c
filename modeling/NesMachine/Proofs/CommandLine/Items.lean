import Mathlib.Data.List.Induction

/-!
# The items of an option list

The options of a trace are items: `--stop-on-jam` alone, and any other argument together with the
argument behind it, which is its value whatever it looks like. A list of arguments is a list of items
in one way (`exists_splits`, `Splits.unique`), and items whose options all have their values can be
written one after the other in any order (`splits_flatMap_arguments`). An option that is repeated has
the value of its last occurrence (`lastValue?`), so the values of all options are the same for lists
that agree on the items of each option (`SameByOption`).
-/

set_option autoImplicit false

namespace NesMachine.CommandLine

/-- An item of the options of a trace. -/
inductive Item where
  /-- `--stop-on-jam`, which takes no value. -/
  | alone
  /-- An option with the argument behind it. -/
  | valued (option value : String)
  /-- An option with no argument behind it. -/
  | bare (option : String)
  deriving DecidableEq

namespace Item

/-- The name of the option of an item. -/
def option : Item → String
  | alone => "--stop-on-jam"
  | valued option _ | bare option => option

/-- The arguments that an item consists of. -/
def arguments : Item → List String
  | alone => ["--stop-on-jam"]
  | valued option value => [option, value]
  | bare option => [option]

/-- The value that an item gives to an option. -/
def value? (option : String) : Item → Option String
  | valued other value => if other = option then some value else none
  | _ => none

end Item

/-! ## Splitting arguments -/

/-- Some items are what a list of arguments consists of when they are taken from left to right. -/
inductive Splits : List Item → List String → Prop where
  | nil : Splits [] []
  | alone {items : List Item} {args : List String} (rest : Splits items args) :
      Splits (.alone :: items) ("--stop-on-jam" :: args)
  | valued {items : List Item} {args : List String} {option : String} (value : String)
      (hoption : option ≠ "--stop-on-jam") (rest : Splits items args) :
      Splits (.valued option value :: items) (option :: value :: args)
  | bare {option : String} (hoption : option ≠ "--stop-on-jam") : Splits [.bare option] [option]

/-- All arguments consist of items. -/
theorem exists_splits (args : List String) : ∃ items, Splits items args := by
  -- An item takes one argument or two, so the induction is on the number of arguments.
  induction hlength : args.length using Nat.strongRecOn generalizing args with
  | ind length ih =>
    subst hlength
    match args with
    | [] => exact ⟨[], .nil⟩
    | option :: rest =>
      by_cases hoption : option = "--stop-on-jam"
      · subst hoption
        obtain ⟨items, hitems⟩ := ih rest.length (by simp) rest rfl
        exact ⟨_, .alone hitems⟩
      · match rest with
        | [] => exact ⟨_, .bare hoption⟩
        | value :: rest =>
          obtain ⟨items, hitems⟩ := ih rest.length (by simp only [List.length_cons]; omega) rest rfl
          exact ⟨_, .valued value hoption hitems⟩

/-- Arguments consist of items in one way only. -/
theorem Splits.unique {items others : List Item} {args : List String} (h : Splits items args)
    (hothers : Splits others args) : others = items := by
  induction h generalizing others with
  | nil =>
    cases hothers
    rfl
  | alone rest ih =>
    cases hothers with
    | alone hrest => rw [ih hrest]
    | valued _ hoption => exact absurd rfl hoption
    | bare hoption => exact absurd rfl hoption
  | valued value hoption rest ih =>
    cases hothers with
    | alone => exact absurd rfl hoption
    | valued _ _ hrest => rw [ih hrest]
  | bare hoption =>
    cases hothers with
    | alone => exact absurd rfl hoption
    | bare => rfl

/-- An item has all that it needs, wherever it stands. -/
def Item.Whole : Item → Prop
  | .alone => True
  | .valued option _ => option ≠ "--stop-on-jam"
  | .bare _ => False

/-- Whole items may be written in any order. -/
theorem splits_flatMap_arguments {items : List Item} (h : ∀ item ∈ items, item.Whole) :
    Splits items (items.flatMap Item.arguments) := by
  induction items with
  | nil => exact .nil
  | cons item items ih =>
    obtain ⟨hitem, hitems⟩ := List.forall_mem_cons.1 h
    rw [List.flatMap_cons]
    cases item with
    | alone => exact .alone (ih hitems)
    | valued option value => exact .valued value hitem (ih hitems)
    | bare option => exact hitem.elim

/-! ## Values -/

/-- The value that an option is given last. -/
def lastValue? (option : String) (items : List Item) : Option String :=
  (items.filterMap (Item.value? option)).getLast?

/-- The latest item decides if it gives a value to the option. -/
theorem lastValue?_concat (option : String) (items : List Item) (item : Item) :
    lastValue? option (items ++ [item]) = (item.value? option).or (lastValue? option items) := by
  rw [lastValue?, List.filterMap_append, List.getLast?_append]
  cases hvalue : item.value? option with
  | none => simp [hvalue, lastValue?]
  | some value => simp [hvalue]

/-- Two lists have the same items of each option, in the same order. -/
def SameByOption (items others : List Item) : Prop :=
  ∀ option, others.filter (fun item => item.option = option) =
    items.filter fun item => item.option = option

section SameByOption

variable {items others : List Item}

/-- Such lists have the same items. -/
theorem SameByOption.mem_iff (h : SameByOption items others) {item : Item} :
    item ∈ others ↔ item ∈ items := by
  have hitems : ∀ list : List Item,
      item ∈ list.filter (fun other => other.option = item.option) ↔ item ∈ list := by
    intro list
    simp
  rw [← hitems others, h, hitems]

/-- Only the items of an option give it a value. -/
theorem filterMap_value? (option : String) (items : List Item) :
    items.filterMap (Item.value? option) =
      (items.filter fun item => item.option = option).filterMap (Item.value? option) := by
  rw [List.filterMap_filter]
  congr 1
  funext item
  cases item with
  | alone => simp [Item.value?]
  | valued other value =>
    by_cases hother : other = option
    · simp [Item.value?, Item.option, hother]
    · simp [Item.value?, Item.option, hother]
  | bare other => simp [Item.value?]

theorem SameByOption.lastValue?_eq (h : SameByOption items others) (option : String) :
    lastValue? option others = lastValue? option items := by
  rw [lastValue?, filterMap_value?, h, ← filterMap_value?, lastValue?]

end SameByOption

end NesMachine.CommandLine

import NesMachine.CommandLine
import NesMachine.Proofs.CommandLine.Items

/-!
# The options of a trace

What each item of an option list does, on files that stay as they are (`ofFiles`). An item is
refused because it is no option with a value (`Misuses`) or because its value cannot be read
(`Unreadable`), by any settings. Items that are accepted give every setting the value of its last
item (`given`), one item after the other (`Accepted.apply_given`, `foldlM_apply_eq_given`). Main
statement: `trace_options_decide`. The first item that is refused decides how the program ends, and
if there is none then the program ends as the trace with the given settings does, whatever the order
of items of different options.
-/

set_option autoImplicit false

namespace NesMachine.CommandLine

/-! ## Files that stay as they are -/

section Files

variable {m : Type → Type} [Monad m]

/-- Reading files that stay as they are. -/
def ofFiles (files : String → Except FileError ByteArray) (path : String) :
    m (Except FileError ByteArray) :=
  pure (files path)

variable [LawfulMonad m] (files : String → Except FileError ByteArray)

/-- Reading a log has no effect on such files. -/
theorem readLog_ofFiles (path : String) :
    readLog (m := m) (ofFiles files) path = pure (readLog (m := Id) files path) := by
  rw [readLog, readLog, ofFiles, pure_bind]
  dsimp only [bind, Id]
  cases files path with
  | error error => rfl
  | ok bytes =>
    dsimp only
    cases String.fromUTF8? bytes with
    | none => rfl
    | some text => rfl

/-- Applying an option has no effect on such files. -/
theorem applyOption_ofFiles (s : TraceSettings) (option value : String) :
    applyOption (m := m) (ofFiles files) s option value =
      pure (applyOption (m := Id) files s option value) := by
  unfold applyOption
  split
  · cases Text.readAddress value <;> rfl
  · cases Text.readByte value <;> rfl
  · rfl
  · rfl
  · rw [readLog_ofFiles, pure_bind]
    rfl
  · rfl

end Files

/-! ## Items -/

/-- The options that take a value. -/
def valueOptions : List String :=
  ["--entry", "--status", "--cycles", "--count", "--compare"]

/-- An item is refused with a message because it is no option with a value. -/
inductive Misuses : Item → String → Prop where
  | noValue (option : String) : Misuses (.bare option) (option ++ " needs a value")
  | unknown {option : String} (value : String) (h : option ∉ valueOptions) :
      Misuses (.valued option value) ("unknown option '" ++ option ++ "'")

/-- The value of a count of at most 64 bits. -/
def countValue (text : String) : Except Text.NumeralError Nat :=
  Text.readNumeral 10 0xFFFFFFFFFFFFFFFF text.toList

/-- An item is refused with a report because its value cannot be read. -/
inductive Unreadable (files : String → Except FileError ByteArray) : Item → Report → Prop where
  | entry {value : String} {error : Text.AddressError} (h : Text.readAddress value = .error error) :
      Unreadable files (.valued "--entry" value) error.report
  | status {value : String} {error : Text.ByteError} (h : Text.readByte value = .error error) :
      Unreadable files (.valued "--status" value) error.report
  | cycles {value : String} {cause : Text.NumeralError} (h : countValue value = .error cause) :
      Unreadable files (.valued "--cycles" value)
        ⟨"invalid cycle count '" ++ value ++ "'", some cause.message⟩
  | count {value : String} {cause : Text.NumeralError} (h : countValue value = .error cause) :
      Unreadable files (.valued "--count" value)
        ⟨"invalid instruction count '" ++ value ++ "'", some cause.message⟩
  | noFile {value : String} {error : FileError} (h : files value = .error error) :
      Unreadable files (.valued "--compare" value)
        ⟨"failed to read reference log '" ++ value ++ "'", some error.message⟩
  | noText {value : String} {bytes : ByteArray} (h : files value = .ok bytes)
      (htext : String.fromUTF8? bytes = none) :
      Unreadable files (.valued "--compare" value)
        ⟨"failed to read reference log '" ++ value ++ "'",
          some "stream did not contain valid UTF-8"⟩

/-- An item is not refused. -/
structure Accepted (files : String → Except FileError ByteArray) (item : Item) : Prop where
  used : ∀ message, ¬ Misuses item message
  readable : ∀ report, ¬ Unreadable files item report

/-- What an item does to some settings. -/
def Item.apply (files : String → Except FileError ByteArray) (s : TraceSettings) :
    Item → Except Refusal TraceSettings
  | .alone => .ok { s with stopOnJam := true }
  | .valued option value => applyOption (m := Id) files s option value
  | .bare option => .error (.misuse (option ++ " needs a value"))

/-- The settings that items give: each option has the value of its last item, or its default. -/
def given (files : String → Except FileError ByteArray) (items : List Item) : TraceSettings where
  entry := (lastValue? "--entry" items).bind fun value => (Text.readAddress value).toOption
  startCycles := UInt64.ofNat
    (((lastValue? "--cycles" items).bind fun value => (countValue value).toOption).getD 7)
  status := (lastValue? "--status" items).bind fun value => (Text.readByte value).toOption
  instructions :=
    ((lastValue? "--count" items).bind fun value => (countValue value).toOption).getD 10000
  stopOnJam := .alone ∈ items
  reference := (lastValue? "--compare" items).bind fun path =>
    (files path).toOption.bind String.fromUTF8?

section Items

variable {files : String → Except FileError ByteArray} {item : Item} {s : TraceSettings}

/-- Items of other options are refused. -/
theorem apply_of_notMem {option : String} (h : option ∉ valueOptions) (value : String) :
    (Item.valued option value).apply files s =
      .error (.misuse ("unknown option '" ++ option ++ "'")) := by
  simp only [valueOptions, List.mem_cons, List.not_mem_nil, or_false, not_or] at h
  obtain ⟨hentry, hstatus, hcycles, hcount, hcompare⟩ := h
  rw [Item.apply]
  unfold applyOption
  split
  · exact absurd rfl hentry
  · exact absurd rfl hstatus
  · exact absurd rfl hcycles
  · exact absurd rfl hcount
  · exact absurd rfl hcompare
  · rfl

/-! What each option does with its value. -/

theorem apply_entry (value : String) : (Item.valued "--entry" value).apply files s =
    match Text.readAddress value with
    | .ok entry => .ok { s with entry := some entry }
    | .error error => .error (.failure error.report) :=
  rfl

theorem apply_status (value : String) : (Item.valued "--status" value).apply files s =
    match Text.readByte value with
    | .ok status => .ok { s with status := some status }
    | .error error => .error (.failure error.report) :=
  rfl

theorem apply_cycles (value : String) : (Item.valued "--cycles" value).apply files s =
    (readCount "cycle count" value).map fun n => { s with startCycles := UInt64.ofNat n } :=
  rfl

theorem apply_count (value : String) : (Item.valued "--count" value).apply files s =
    (readCount "instruction count" value).map fun n => { s with instructions := n } :=
  rfl

theorem apply_compare (path : String) : (Item.valued "--compare" path).apply files s =
    (readLog (m := Id) files path).map fun log => { s with reference := some log } :=
  rfl

theorem readCount_eq (what text : String) : readCount what text =
    match countValue text with
    | .ok n => .ok n
    | .error cause =>
        .error (.failure ⟨"invalid " ++ what ++ " '" ++ text ++ "'", some cause.message⟩) :=
  rfl

theorem readLog_eq (path : String) : readLog (m := Id) files path =
    match files path with
    | .error error => .error
        (.failure ⟨"failed to read reference log '" ++ path ++ "'", some error.message⟩)
    | .ok bytes =>
        match String.fromUTF8? bytes with
        | none => .error (.failure ⟨"failed to read reference log '" ++ path ++ "'",
            some "stream did not contain valid UTF-8"⟩)
        | some text => .ok text := by
  rfl

/-- A misused item is refused by any settings. -/
theorem Misuses.apply_eq {message : String} (h : Misuses item message) :
    item.apply files s = .error (.misuse message) := by
  cases h with
  | noValue option => rfl
  | unknown value h => exact apply_of_notMem h value

/-- An item that cannot be read is refused by any settings. -/
theorem Unreadable.apply_eq {report : Report} (h : Unreadable files item report) :
    item.apply files s = .error (.failure report) := by
  cases h with
  | entry h => rw [apply_entry, h]
  | status h => rw [apply_status, h]
  | cycles h =>
    rw [apply_cycles, readCount_eq, h]
    rfl
  | count h =>
    rw [apply_count, readCount_eq, h]
    rfl
  | noFile h =>
    rw [apply_compare, readLog_eq, h]
    rfl
  | noText h htext =>
    rw [apply_compare, readLog_eq, h]
    dsimp only
    rw [htext]
    rfl

theorem accepted_of_apply_eq_ok {later : TraceSettings} (h : item.apply files s = .ok later) :
    Accepted files item where
  used := by
    intro message hmisuses
    rw [hmisuses.apply_eq] at h
    cases h
  readable := by
    intro report hunreadable
    rw [hunreadable.apply_eq] at h
    cases h

/-- Accepted items have all that they need. -/
theorem Accepted.whole (h : Accepted files item) : item.Whole := by
  cases item with
  | alone => trivial
  | valued option value =>
    rintro rfl
    exact h.used _ (.unknown value (by decide))
  | bare option => exact h.used _ (.noValue option)

theorem Accepted.mem_valueOptions {option value : String}
    (h : Accepted files (.valued option value)) : option ∈ valueOptions := by
  by_contra hoption
  exact h.used _ (.unknown value hoption)

/-- An accepted item gives its option the value that it has. -/
theorem Accepted.apply_given (h : Accepted files item) (items : List Item) :
    item.apply files (given files items) = .ok (given files (items ++ [item])) := by
  cases item with
  | alone => simp [Item.apply, given, lastValue?_concat, Item.value?]
  | valued option value =>
    have hoption := h.mem_valueOptions
    simp only [valueOptions, List.mem_cons, List.not_mem_nil, or_false] at hoption
    rcases hoption with rfl | rfl | rfl | rfl | rfl
    · cases hvalue : Text.readAddress value with
      | error error => exact absurd (.entry hvalue) (h.readable _)
      | ok entry =>
        rw [apply_entry, hvalue]
        simp [given, lastValue?_concat, Item.value?, hvalue, Except.toOption]
    · cases hvalue : Text.readByte value with
      | error error => exact absurd (.status hvalue) (h.readable _)
      | ok status =>
        rw [apply_status, hvalue]
        simp [given, lastValue?_concat, Item.value?, hvalue, Except.toOption]
    · cases hvalue : countValue value with
      | error error => exact absurd (.cycles hvalue) (h.readable _)
      | ok n =>
        rw [apply_cycles, readCount_eq, hvalue]
        simp [given, lastValue?_concat, Item.value?, hvalue, Except.toOption, Except.map]
    · cases hvalue : countValue value with
      | error error => exact absurd (.count hvalue) (h.readable _)
      | ok n =>
        rw [apply_count, readCount_eq, hvalue]
        simp [given, lastValue?_concat, Item.value?, hvalue, Except.toOption, Except.map]
    · cases hvalue : files value with
      | error error => exact absurd (.noFile hvalue) (h.readable _)
      | ok bytes =>
        cases htext : String.fromUTF8? bytes with
        | none => exact absurd (.noText hvalue htext) (h.readable _)
        | some text =>
          rw [apply_compare, readLog_eq, hvalue]
          simp [given, lastValue?_concat, Item.value?, hvalue, htext, Except.toOption, Except.map]
  | bare option => exact absurd (.noValue option) (h.used _)

end Items

/-! ## Lists of items -/

section Lists

variable {files : String → Except FileError ByteArray} {items before after others : List Item}
  {item : Item}

/-- Accepted items give the settings of their last values. -/
theorem foldlM_apply_eq_given (h : ∀ item ∈ items, Accepted files item) :
    items.foldlM (Item.apply files) .standard = .ok (given files items) := by
  -- What an item gives depends on the items before it, so the induction is from the end.
  induction items using List.reverseRecOn with
  | nil => rfl
  | append_singleton items item ih =>
    obtain ⟨hitems, hitem⟩ := List.forall_mem_append.1 h
    rw [List.foldlM_append, ih hitems]
    change [item].foldlM (Item.apply files) (given files items) = _
    rw [List.foldlM_cons, (hitem item (List.mem_singleton_self item)).apply_given]
    rfl

/-- The first item that is refused decides. -/
theorem foldlM_apply_eq_error {refusal : Refusal} (hbefore : ∀ item ∈ before, Accepted files item)
    (hitem : item.apply files (given files before) = .error refusal) :
    (before ++ item :: after).foldlM (Item.apply files) .standard = .error refusal := by
  rw [List.foldlM_append, foldlM_apply_eq_given hbefore]
  change (item :: after).foldlM (Item.apply files) (given files before) = _
  rw [List.foldlM_cons, hitem]
  rfl

/-- The order of items of different options does not matter. -/
theorem SameByOption.given_eq (h : SameByOption items others) :
    given files others = given files items := by
  simp only [given, h.lastValue?_eq, h.mem_iff]

end Lists

/-! ## Runs -/

section Runs

variable {m : Type → Type} [Monad m] [LawfulMonad m]
  {files : String → Except FileError ByteArray} {items : List Item} {args : List String}

/-- Options are applied item by item. -/
theorem applyOptions_ofFiles (h : Splits items args) (s : TraceSettings) :
    applyOptions (m := m) (ofFiles files) s args = pure (items.foldlM (Item.apply files) s) := by
  induction h generalizing s with
  | nil => rfl
  | alone rest ih =>
    unfold applyOptions
    rw [if_pos rfl, ih]
    rfl
  | valued value hoption rest ih =>
    unfold applyOptions
    rw [if_neg hoption]
    dsimp only
    rw [applyOption_ofFiles, pure_bind, List.foldlM_cons, Item.apply]
    cases applyOption (m := Id) files s _ value with
    | error refusal => rfl
    | ok s => exact ih s
  | bare hoption =>
    rw [applyOptions, if_neg hoption]
    rfl

/-- What the program leaves for the options that some items are. -/
def output (files : String → Except FileError ByteArray) (image : Array UInt8)
    (items : List Item) : Output :=
  match items.foldlM (Item.apply files) .standard with
  | .error refusal => refusal.output
  | .ok settings => (Command.trace image settings).run

/-- The program ends as its items say. -/
theorem run_ofFiles {path : String} {bytes : ByteArray} (hrom : files path = .ok bytes)
    (h : Splits items args) :
    run (m := m) (ofFiles files) ("trace" :: path :: args) =
      pure (output files bytes.data items) := by
  rw [run, read, readTrace, readImage, ofFiles, hrom]
  simp only [pure_bind]
  rw [applyOptions_ofFiles h]
  simp only [pure_bind]
  rw [output]
  cases items.foldlM (Item.apply files) .standard with
  | error refusal => rfl
  | ok settings => rfl

end Runs

/-! ## Outcomes -/

/-- What the program leaves is decided by the first item that is refused, or else by the trace. -/
structure Decides (files : String → Except FileError ByteArray) (image : Array UInt8)
    (items : List Item) (output : Output) : Prop where
  /-- A first item that is misused ends the program with exit code 2. -/
  misuse : ∀ before item after message, items = before ++ item :: after →
    (∀ earlier ∈ before, Accepted files earlier) → Misuses item message →
      output = ⟨2, "", message ++ "\n\n" ++ usage ++ "\n"⟩
  /-- A first item that cannot be read ends the program with exit code 1. -/
  failure : ∀ before item after report, items = before ++ item :: after →
    (∀ earlier ∈ before, Accepted files earlier) → Unreadable files item report →
      output = ⟨1, "", report.page⟩
  /-- Accepted items leave what the trace with their settings writes. -/
  text : (∀ item ∈ items, Accepted files item) →
    output.stdout = ((given files items).run image).text
  /-- Accepted items end as the trace with their settings does. -/
  success : (∀ item ∈ items, Accepted files item) →
    (output.exitCode = 0 ↔ ∃ n, ((given files items).run image).result = .ok n)

section Outcomes

variable {files : String → Except FileError ByteArray} {items others : List Item}
  {image : Array UInt8}

theorem exitCode_run_trace (settings : TraceSettings) :
    (Command.trace image settings).run.exitCode = 0 ↔ ∃ n, (settings.run image).result = .ok n := by
  rw [Command.run]
  cases hresult : (settings.run image).result with
  | ok n => simp
  | error error => simp

theorem stdout_run_trace (settings : TraceSettings) :
    (Command.trace image settings).run.stdout = (settings.run image).text := by
  rw [Command.run]
  cases hresult : (settings.run image).result with
  | ok n => simp
  | error error => simp

theorem output_of_accepted (h : ∀ item ∈ items, Accepted files item) :
    output files image items = (Command.trace image (given files items)).run := by
  rw [output, foldlM_apply_eq_given h]

/-- What the items leave is decided as stated. -/
theorem decides_output (files : String → Except FileError ByteArray) (image : Array UInt8)
    (items : List Item) : Decides files image items (output files image items) where
  misuse := by
    rintro before item after message rfl hbefore hitem
    rw [output, foldlM_apply_eq_error hbefore hitem.apply_eq]
    rfl
  failure := by
    rintro before item after report rfl hbefore hitem
    rw [output, foldlM_apply_eq_error hbefore hitem.apply_eq]
    rfl
  text := by
    intro h
    rw [output_of_accepted h, stdout_run_trace]
  success := by
    intro h
    rw [output_of_accepted h, exitCode_run_trace]

/-- Accepted items of different options may change places. -/
theorem SameByOption.output_eq (h : SameByOption items others)
    (haccepted : ∀ item ∈ items, Accepted files item) :
    output files image others = output files image items := by
  have hothers : ∀ item ∈ others, Accepted files item :=
    fun item hitem => haccepted item (h.mem_iff.1 hitem)
  rw [output_of_accepted hothers, output_of_accepted haccepted, h.given_eq]

end Outcomes

/-- The options behind a readable cartridge consist of items in one way. The first item that is
refused decides how the program ends, and without one it ends as the trace with the values of the
last items does. The items of different options may then change places. -/
theorem trace_options_decide {m : Type → Type} [Monad m] [LawfulMonad m]
    (files : String → Except FileError ByteArray) (path : String) {bytes : ByteArray}
    (hrom : files path = .ok bytes) (args : List String) :
    ∃ items, Splits items args ∧ (∀ others, Splits others args → others = items) ∧
      ∃ output, run (m := m) (ofFiles files) ("trace" :: path :: args) = pure output ∧
        Decides files bytes.data items output ∧
        ((∀ item ∈ items, Accepted files item) → ∀ others, SameByOption items others →
          run (m := m) (ofFiles files) ("trace" :: path :: others.flatMap Item.arguments) =
            pure output) := by
  obtain ⟨items, hitems⟩ := exists_splits args
  refine ⟨items, hitems, fun others => hitems.unique, output files bytes.data items,
    run_ofFiles hrom hitems, decides_output files bytes.data items, ?_⟩
  intro haccepted others hothers
  have hsplits : Splits others (others.flatMap Item.arguments) :=
    splits_flatMap_arguments fun item hitem => (haccepted item (hothers.mem_iff.1 hitem)).whole
  rw [run_ofFiles hrom hsplits, hothers.output_eq haccepted]

/-- An option that stands where a value is expected is read as that value, and what is behind it
is not looked at. -/
theorem trace_options_decide_swallowed :
    run (m := Id) (ofFiles fun _ => .ok .empty)
        ["trace", "game.nes", "--entry", "C000", "--count", "--stop-on-jam", "--speed"] =
      ⟨1, "", Report.page ⟨"invalid instruction count '--stop-on-jam'",
        some "invalid digit found in string"⟩⟩ := by
  obtain ⟨items, -, hunique, output, hrun, hdecides, -⟩ :=
    trace_options_decide (m := Id) (fun _ => .ok .empty) "game.nes" rfl
      ["--entry", "C000", "--count", "--stop-on-jam", "--speed"]
  have hitems := hunique
    [.valued "--entry" "C000", .valued "--count" "--stop-on-jam", .bare "--speed"]
    (.valued "C000" (by decide) (.valued "--stop-on-jam" (by decide) (.bare (by decide))))
  have haddress : Text.readAddress "C000" = .ok 0xC000 := by decide
  have happly : (Item.valued "--entry" "C000").apply (fun _ => .ok .empty) .standard =
      .ok { TraceSettings.standard with entry := some 0xC000 } := by
    rw [apply_entry, haddress]
  have hcount : countValue "--stop-on-jam" = .error .invalidDigit := by decide
  rw [hrun]
  exact hdecides.failure [.valued "--entry" "C000"] (.valued "--count" "--stop-on-jam")
    [.bare "--speed"] _ hitems.symm
    (by simpa using accepted_of_apply_eq_ok happly) (.count hcount)

end NesMachine.CommandLine

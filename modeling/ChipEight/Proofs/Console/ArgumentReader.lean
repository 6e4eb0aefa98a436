import ChipEight.Console.ArgumentReader

/-!
# Reading from left to right keeps the rules

`parse` reads a command line as `Rules` says (`rules_parse`).

1. Where an option is next, only what is settled matters of a reading (`answer_congr`).  So it makes
   no difference whether a path or a number waits or was settled before.
2. A number that was settled first changes nothing but that number.  Readings with and without it
   stay side by side, argument by argument (`Beside.take`), as long as the option is not given
   again.
-/

namespace ChipEight

namespace CommandLine

/-! ## What an argument looks like -/

namespace Setting

theorem eq_name_of_ofName? {text : List Char} {s : Setting} (h : ofName? text = some s) :
    text = s.name := by
  unfold ofName? at h
  split at h
  · cases h
    assumption
  split at h
  · cases h
    assumption
  split at h
  · cases h
    assumption
  · cases h

theorem number?_of_isPlain {text : List Char} (h : IsPlain text) (s : Setting) :
    s.number? text = unsigned? s.bits text := by
  unfold number?
  split
  · exact absurd rfl h
  · rfl

end Setting

namespace Token

theorem ofArgument_of_isPlain {text : List Char} (h : IsPlain text) : ofArgument text = .plain := by
  unfold ofArgument
  split
  · exact absurd rfl h
  · exact absurd rfl h
  · exact absurd rfl h
  · exact absurd rfl h
  · rfl

theorem ofArgument_flag (s : Setting) : ofArgument s.flag.toList = .setting s none := by
  rw [Setting.flag, String.toList_ofList]
  cases s <;> decide

theorem ofArgument_flagWith (s : Setting) (text : List Char) :
    ofArgument (s.flagWith text).toList = .setting s (some text) := by
  rw [Setting.flagWith, String.toList_ofList]
  cases s <;> rfl

theorem optionOf?_of_setting {argument : String} {s : Setting} {attached : Option (List Char)}
    (h : ofArgument argument.toList = .setting s attached) : optionOf? argument = some s := by
  unfold optionOf?
  unfold ofArgument at h
  split at h
  · cases h
  · rename_i rest _ hargument
    rw [hargument]
    show Setting.ofName? (rest.takeWhile (· != '=')) = some s
    simp only [ofLong] at h
    split at h
    · split at h <;> cases h
    · split at h
      · rename_i hname
        cases h
        exact hname
      · cases h
  · cases h
  · cases h
  · cases h

theorem exists_setting_of_optionOf? {argument : String} {s : Setting}
    (h : optionOf? argument = some s) :
    ∃ attached, ofArgument argument.toList = .setting s attached := by
  unfold optionOf? at h
  split at h
  · rename_i rest hargument
    have hname := Setting.eq_name_of_ofName? h
    have hhelp : rest.takeWhile (· != '=') ≠ "help".toList := by
      rw [hname]
      cases s <;> decide
    have hrest : rest ≠ [] := by
      rintro rfl
      cases s <;> exact absurd hname (by decide)
    obtain ⟨c, rest', rfl⟩ := List.exists_cons_of_ne_nil hrest
    rw [hargument]
    show ∃ attached, ofLong (c :: rest') = .setting s attached
    simp only [ofLong, if_neg hhelp, h]
    exact ⟨_, rfl⟩
  · cases h

end Token

namespace Reading

variable {r r' : Reading} {rest : List String}

/-! ## What is left to read -/

/-- What comes of a reading and the arguments that are left. -/
def answer (arguments : List String) (r : Reading) : Except UsageError Settings :=
  (takeAll arguments r).bind finish

theorem parse_eq (arguments : List String) : parse arguments = answer arguments {} := by
  unfold parse answer
  cases takeAll arguments {} <;> rfl

theorem takeAll_cons (argument : String) (rest : List String) (r : Reading) :
    r.takeAll (argument :: rest) = (r.take argument).bind (takeAll rest) := by
  rw [takeAll]
  cases r.take argument <;> rfl

theorem answer_nil (r : Reading) : answer [] r = r.finish := rfl

theorem answer_cons (argument : String) (rest : List String) (r : Reading) :
    answer (argument :: rest) r = (r.take argument).bind (answer rest) := by
  unfold answer
  rw [takeAll_cons]
  cases r.take argument <;> rfl

theorem take_setting {argument : String} {s : Setting} {attached : Option (List Char)}
    (h : r.separated = false) (htoken : Token.ofArgument argument.toList = .setting s attached) :
    r.take argument = r.takeSetting s attached := by
  rw [take, h, htoken]
  rfl

theorem take_plain {argument : String} (h : r.separated = false)
    (hplain : IsPlain argument.toList) : r.take argument = r.takePlain argument := by
  rw [take, h, Token.ofArgument_of_isPlain hplain]
  rfl

/-- Where an option is next, only what is settled of a reading matters. -/
theorem answer_congr (hr : r.separated = false) (hr' : r'.separated = false)
    (hsettle : r.settle = r'.settle) (hnext : OptionNext rest) :
    answer rest r = answer rest r' := by
  cases rest with
  | nil => rw [answer_nil, answer_nil, finish, finish, hsettle]
  | cons argument rest =>
    obtain ⟨s, hs⟩ := Option.isSome_iff_exists.1 (hnext argument rfl)
    obtain ⟨attached, htoken⟩ := Token.exists_setting_of_optionOf? hs
    rw [answer_cons, answer_cons, take_setting hr htoken, take_setting hr' htoken, takeSetting,
      takeSetting, hsettle]

/-- What cannot be settled is found where an option is next. -/
theorem answer_of_settle_error {e : UsageError} (hr : r.separated = false)
    (hsettle : r.settle = .error e) (hnext : OptionNext rest) : answer rest r = .error e := by
  cases rest with
  | nil => rw [answer_nil, finish, hsettle]
  | cons argument rest =>
    obtain ⟨s, hs⟩ := Option.isSome_iff_exists.1 (hnext argument rfl)
    obtain ⟨attached, htoken⟩ := Token.exists_setting_of_optionOf? hs
    rw [answer_cons, take_setting hr htoken, takeSetting, hsettle]
    rfl

/-! ## A number that was settled first -/

section Beside

variable {s t : Setting} {n : BitVec s.bits}

/-- Nothing was read of an option. -/
structure Free (s : Setting) (r : Reading) : Prop where
  number : r.number? s = none
  option : r.pending ≠ .option s
  value : ∀ text, r.pending ≠ .value s text

/-- The second reading is the first one with a number settled, of an option of which nothing was
read. -/
structure Beside (s : Setting) (n : BitVec s.bits) (read read' : Except UsageError Reading) :
    Prop where
  same : read' = read.map (withNumber s n)
  free : ∀ r, read = .ok r → r.Free s

theorem beside_ok (h : r.Free s) : Beside s n (.ok r) (.ok (r.withNumber s n)) :=
  ⟨rfl, fun _ hr => Except.ok.inj hr ▸ h⟩

theorem beside_error (e : UsageError) : Beside s n (.error e) (.error e) := ⟨rfl, nofun⟩

theorem Beside.bind {read read' : Except UsageError Reading}
    {next : Reading → Except UsageError Reading} (h : Beside s n read read')
    (hnext : ∀ r, r.Free s → Beside s n (next r) (next (r.withNumber s n))) :
    Beside s n (read.bind next) (read'.bind next) := by
  rw [h.same]
  cases read with
  | error e => exact beside_error e
  | ok r => exact hnext r (h.free r rfl)

@[simp] theorem separated_withNumber : (r.withNumber s n).separated = r.separated := by
  cases s <;> rfl

@[simp] theorem pending_withNumber : (r.withNumber s n).pending = r.pending := by cases s <;> rfl

@[simp] theorem path_withNumber : (r.withNumber s n).path = r.path := by cases s <;> rfl

theorem hasPath_withNumber : (r.withNumber s n).hasPath = r.hasPath := by
  rw [hasPath, path_withNumber, pending_withNumber]
  rfl

theorem withPending_withNumber (p : Pending) :
    { r.withNumber s n with pending := p } = { r with pending := p }.withNumber s n := by
  cases s <;> rfl

theorem Free.withPending (h : r.Free s) {p : Pending} (hoption : p ≠ .option s)
    (hvalue : ∀ text, p ≠ .value s text) : Free s { r with pending := p } :=
  ⟨by rw [← h.number]; cases s <;> rfl, hoption, hvalue⟩

theorem Beside.settleNumber (h : r.Free s) (hne : t ≠ s) (text : List Char) :
    Beside s n (r.settleNumber t text) ((r.withNumber s n).settleNumber t text) := by
  have hnumber : (r.withNumber s n).number? t = r.number? t := by
    cases s <;> cases t <;> first | rfl | exact absurd rfl hne
  unfold Reading.settleNumber
  rw [hnumber]
  cases r.number? t with
  | some _ => exact beside_error _
  | none =>
    cases t.number? text with
    | none => exact beside_error _
    | some m =>
      have hswap : (r.withNumber s n).withNumber t m = (r.withNumber t m).withNumber s n := by
        cases s <;> cases t <;> first | rfl | exact absurd rfl hne
      show Beside s n (.ok _) (.ok _)
      rw [hswap]
      refine beside_ok ⟨?_, ?_, ?_⟩
      · rw [← h.number]
        cases s <;> cases t <;> first | rfl | exact absurd rfl hne
      · rw [pending_withNumber]
        exact h.option
      · rw [pending_withNumber]
        exact h.value

theorem Beside.settle (h : r.Free s) : Beside s n r.settle (r.withNumber s n).settle := by
  have hrest : Free s { r with pending := .nothing } := h.withPending nofun nofun
  unfold Reading.settle
  rw [pending_withNumber, withPending_withNumber]
  cases hpending : r.pending with
  | nothing => exact beside_ok hrest
  | option t => exact beside_error _
  | value t text =>
    have hne : t ≠ s := by
      rintro rfl
      exact h.value text hpending
    exact Beside.settleNumber hrest hne text
  | path path =>
    simp only
    split
    · exact beside_error _
    · have hpath : { { r with pending := .nothing }.withNumber s n with path := some path } =
          { r with pending := .nothing, path := some path }.withNumber s n := by cases s <;> rfl
      rw [hpath]
      exact beside_ok ⟨by rw [← h.number]; cases s <;> rfl, nofun, nofun⟩

theorem Beside.takePath (h : r.Free s) (path : String) :
    Beside s n (r.takePath path) ((r.withNumber s n).takePath path) := by
  have hsettle := Beside.settle (n := n) h
  unfold Reading.takePath
  rw [hasPath_withNumber, hsettle.same]
  split
  · exact beside_error _
  · cases hsettled : r.settle with
    | error e => exact beside_error e
    | ok settled =>
      show Beside s n (.ok _) (.ok { settled.withNumber s n with pending := .path path })
      rw [withPending_withNumber]
      exact beside_ok ((hsettle.free settled hsettled).withPending nofun nofun)

theorem Beside.takePlain (h : r.Free s) (argument : String) :
    Beside s n (r.takePlain argument) ((r.withNumber s n).takePlain argument) := by
  unfold Reading.takePlain
  rw [pending_withNumber]
  cases hpending : r.pending with
  | nothing | value | path => exact Beside.takePath h argument
  | option t =>
    simp only [withPending_withNumber]
    refine beside_ok (h.withPending nofun fun text hsame => ?_)
    cases hsame
    exact h.option hpending

theorem Beside.takeSetting (h : r.Free s) (hne : t ≠ s) (attached : Option (List Char)) :
    Beside s n (r.takeSetting t attached) ((r.withNumber s n).takeSetting t attached) := by
  have hsettle := Beside.settle (n := n) h
  unfold Reading.takeSetting
  rw [hsettle.same]
  cases hsettled : r.settle with
  | error e => exact beside_error e
  | ok settled =>
    have hfree := hsettle.free settled hsettled
    cases attached with
    | some text => exact Beside.settleNumber hfree hne text
    | none =>
      show Beside s n (.ok _) (.ok { settled.withNumber s n with pending := .option t })
      rw [withPending_withNumber]
      refine beside_ok (hfree.withPending (fun hsame => ?_) nofun)
      cases hsame
      exact hne rfl

/-- The readings stay side by side through an argument that is another option or none. -/
theorem Beside.take (h : r.Free s) {argument : String} (hother : optionOf? argument ≠ some s) :
    Beside s n (r.take argument) ((r.withNumber s n).take argument) := by
  unfold Reading.take
  rw [separated_withNumber]
  split
  · exact Beside.takePath h argument
  · cases htoken : Token.ofArgument argument.toList with
    | separator =>
      have hseparated : { r.withNumber s n with separated := true } =
          { r with separated := true }.withNumber s n := by cases s <;> rfl
      simp only [hseparated]
      exact beside_ok ⟨by rw [← h.number]; cases s <;> rfl, h.option, h.value⟩
    | setting t attached =>
      refine Beside.takeSetting h ?_ attached
      rintro rfl
      exact hother (Token.optionOf?_of_setting htoken)
    | help =>
      simp only [(Beside.settle (n := n) h).same]
      cases r.settle <;> exact beside_error _
    | helpWithValue | unknown => exact beside_error _
    | plain => exact Beside.takePlain h argument

theorem Beside.takeAll (h : r.Free s) {arguments : List String}
    (hothers : ∀ a ∈ arguments, optionOf? a ≠ some s) :
    Beside s n (r.takeAll arguments) ((r.withNumber s n).takeAll arguments) := by
  induction arguments generalizing r with
  | nil => exact beside_ok h
  | cons argument rest ih =>
    obtain ⟨hother, hothers⟩ := List.forall_mem_cons.1 hothers
    rw [takeAll_cons, takeAll_cons]
    exact (Beside.take h hother).bind fun r hr => ih hr hothers

theorem finish_withNumber (h : r.Free s) :
    (r.withNumber s n).finish = r.finish.map (Settings.withNumber s n) := by
  unfold finish
  rw [(Beside.settle (n := n) h).same]
  cases r.settle with
  | error e => rfl
  | ok settled =>
    simp only [Except.map, path_withNumber]
    cases settled.path with
    | none => rfl
    | some path => cases s <;> rfl

theorem answer_withNumber (h : r.Free s) {arguments : List String}
    (hothers : ∀ a ∈ arguments, optionOf? a ≠ some s) :
    answer arguments (r.withNumber s n) = (answer arguments r).map (Settings.withNumber s n) := by
  have hbeside := Beside.takeAll (n := n) h hothers
  unfold answer
  rw [hbeside.same]
  cases hread : r.takeAll arguments with
  | error e => rfl
  | ok r' => exact finish_withNumber (hbeside.free r' hread)

end Beside

/-! ## The front of a command line -/

section Front

variable {path : String} {s : Setting} {text : List Char} {settled : Reading}

theorem answer_flagWith (h : r.separated = false) (hsettle : r.settle = .ok settled)
    (s : Setting) (text : List Char) (rest : List String) :
    answer (s.flagWith text :: rest) r = (settled.settleNumber s text).bind (answer rest) := by
  rw [answer_cons, take_setting h (Token.ofArgument_flagWith s text), takeSetting, hsettle]

theorem answer_flag (h : r.separated = false) (hsettle : r.settle = .ok settled)
    (h' : settled.separated = false) (s : Setting) (htext : IsPlain text) (rest : List String) :
    answer (s.flag :: String.ofList text :: rest) r =
      answer rest { settled with pending := .value s text } := by
  have hplain : IsPlain (String.ofList text).toList := by rwa [String.toList_ofList]
  have hvalue : Reading.take { settled with pending := .option s } (String.ofList text) =
      .ok { settled with pending := .value s text } := by
    rw [take_plain (r := { settled with pending := .option s }) h' hplain]
    show Except.ok { settled with pending := .value s (String.ofList text).toList } = _
    rw [String.toList_ofList]
  rw [answer_cons, take_setting h (Token.ofArgument_flag s), takeSetting, hsettle]
  show answer (String.ofList text :: rest) { settled with pending := .option s } = _
  rw [answer_cons, hvalue]
  rfl

/-- A path settles what came before it. -/
theorem answer_path (h : r.separated = false) (hplain : IsPlain path.toList)
    (hpending : ∀ s, r.pending ≠ .option s) (hfirst : r.hasPath = false) (rest : List String) :
    answer (path :: rest) r =
      r.settle.bind fun settled => answer rest { settled with pending := .path path } := by
  have htake : r.take path = r.takePath path := by
    rw [take_plain h hplain, takePlain]
    split
    · rename_i s hoption
      exact absurd hoption (hpending s)
    · rfl
  rw [answer_cons, htake, takePath, hfirst]
  cases r.settle <;> rfl

theorem settle_of_path (hne : path ≠ "") (h : r.pending = .path path) :
    r.settle = .ok { r with pending := .nothing, path := some path } := by
  have hempty : path.isEmpty = false := Bool.eq_false_iff.2 (mt String.isEmpty_iff.1 hne)
  unfold settle
  rw [h]
  simp only [hempty]
  rfl

theorem settleNumber_of_none (h : r.number? s = none) (text : List Char) :
    r.settleNumber s text = (s.number? text).elim (.error .badNumber) fun n =>
      .ok (r.withNumber s n) := by
  unfold settleNumber
  rw [h]
  cases s.number? text <;> rfl

theorem settleNumber_new (s : Setting) (text : List Char) :
    settleNumber s text {} = (s.number? text).elim (.error .badNumber) fun n =>
      .ok (withNumber s n {}) :=
  settleNumber_of_none (by cases s <;> rfl) text

theorem settle_path_withNumber (hne : path ≠ "") (s : Setting) (n : BitVec s.bits) :
    settle { withNumber s n {} with pending := .path path } =
      .ok (withNumber s n { path := some path }) := by
  rw [settle_of_path hne rfl]
  cases s <;> rfl

/-- A path that is read first. -/
theorem answer_path_first (hplain : IsPlain path.toList) (rest : List String) :
    answer (path :: rest) {} = answer rest { pending := .path path } :=
  answer_path rfl hplain (by intro _ h; cases h) rfl rest

/-- A path that is read after a number is settled. -/
theorem answer_path_withNumber (hplain : IsPlain path.toList) (s : Setting) (n : BitVec s.bits)
    (rest : List String) :
    answer (path :: rest) (withNumber s n {}) =
      answer rest { withNumber s n {} with pending := .path path } := by
  cases s <;> exact answer_path rfl hplain (by intro _ h; cases h) rfl rest

/-- A path that is read after a number that is not settled. -/
theorem answer_path_value (hplain : IsPlain path.toList) (s : Setting) (text : List Char)
    (rest : List String) :
    answer (path :: rest) { pending := .value s text } =
      (s.number? text).elim (.error .badNumber) fun n =>
        answer rest { withNumber s n {} with pending := .path path } := by
  rw [answer_path rfl hplain (by intro _ h; cases h) rfl]
  show (settleNumber s text {}).bind _ = _
  rw [settleNumber_new]
  cases s.number? text <;> rfl

end Front

end Reading

open Reading in
/-- Reading from left to right keeps the rules. -/
theorem rules_parse : Rules parse where
  path_alone path hne hplain := by
    rw [parse_eq, answer_path_first hplain, answer_nil, finish, settle_of_path hne rfl]
    rfl
  path_moves path s text rest hne hplain htext hnext := by
    simp only [parse_eq, answer_path_first hplain]
    have hpath : settle { pending := .path path } = .ok { path := some path } :=
      settle_of_path hne rfl
    have hnumber : settleNumber s text { path := some path } =
        (s.number? text).elim (.error .badNumber) fun n =>
          .ok (withNumber s n { path := some path }) :=
      settleNumber_of_none (by cases s <;> rfl) text
    -- the path is settled now or later
    constructor
    · rw [answer_flagWith rfl hpath, answer_flagWith rfl rfl, hnumber, settleNumber_new]
      cases s.number? text with
      | none => rfl
      | some n =>
        have hlater : settle (withNumber s n { path := some path }) =
            settle { withNumber s n {} with pending := .path path } := by
          rw [settle_path_withNumber hne]
          cases s <;> rfl
        show answer rest (withNumber s n _) = answer (path :: rest) (withNumber s n {})
        rw [answer_path_withNumber hplain]
        exact answer_congr (by cases s <;> rfl) (by cases s <;> rfl) hlater hnext
    · rw [answer_flag rfl hpath rfl s htext, answer_flag rfl rfl rfl s htext,
        answer_path_value hplain]
      cases hn : s.number? text with
      | none =>
        rw [hn] at hnumber
        exact answer_of_settle_error rfl hnumber hnext
      | some n =>
        rw [hn] at hnumber
        have hlater := settle_path_withNumber hne s n
        exact answer_congr rfl (by cases s <;> rfl) (hnumber.trans hlater.symm) hnext
  attached s text rest htext hothers := by
    rw [parse_eq, parse_eq, answer_flagWith rfl rfl, settleNumber_new,
      Setting.number?_of_isPlain htext, withText]
    cases unsigned? s.bits text with
    | none => rfl
    | some n =>
      have hfree : Free s {} := ⟨by cases s <;> rfl, nofun, nofun⟩
      exact answer_withNumber hfree hothers
  apart s text rest htext hnext := by
    rw [parse_eq, parse_eq, answer_flag rfl rfl rfl s htext, answer_flagWith rfl rfl,
      settleNumber_new]
    have hnumber : settle { pending := .value s text } = _ := settleNumber_new s text
    rcases hnext with hnext | ⟨path, after, rfl, hplain⟩
    · cases hn : s.number? text with
      | none =>
        rw [hn] at hnumber
        exact answer_of_settle_error rfl hnumber hnext
      | some n =>
        rw [hn] at hnumber
        exact answer_congr rfl (by cases s <;> rfl) (hnumber.trans (by cases s <;> rfl)) hnext
    · show answer (path :: after) { pending := .value s text } = _
      rw [answer_path_value hplain]
      cases s.number? text with
      | none => rfl
      | some n => exact (answer_path_withNumber hplain s n after).symm

end CommandLine

end ChipEight

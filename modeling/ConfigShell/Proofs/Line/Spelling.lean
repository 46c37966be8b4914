import ConfigShell.Proofs.Line.Within
import Mathlib.Algebra.Group.Nat.Defs
/-!
# Segments are read as what they stand for

Read outside quotes and escapes, a segment takes steps whose outputs are those of its layout and
leaves a state outside quotes and escapes again; the equals sign is marked exactly by a plain
one. Escape sequences come first, then what stands in double quotes, then segments and rows of
them.
-/

namespace ConfigShell.Line

/-! ## The tables of escapes -/

theorem simpleEscape?_eq_some_iff {b c : UInt8} :
    simpleEscape? b = some c ↔ (b, c) ∈ letterEscapes := by
  constructor
  · intro h
    unfold simpleEscape? at h
    split at h <;> cases h <;> simp [letterEscapes]
  · intro h
    simp only [letterEscapes, List.mem_cons, List.not_mem_nil, or_false, Prod.mk.injEq] at h
    rcases h with ⟨rfl, rfl⟩ | ⟨rfl, rfl⟩ | ⟨rfl, rfl⟩ | ⟨rfl, rfl⟩ | ⟨rfl, rfl⟩ | ⟨rfl, rfl⟩ |
      ⟨rfl, rfl⟩ | ⟨rfl, rfl⟩ | ⟨rfl, rfl⟩ | ⟨rfl, rfl⟩ | ⟨rfl, rfl⟩ | ⟨rfl, rfl⟩ | ⟨rfl, rfl⟩
    all_goals rfl

theorem hexForm?_eq_some_iff {b : UInt8} {form : HexForm} :
    hexForm? b = some form ↔ b = form.letter := by
  constructor
  · intro h
    unfold hexForm? at h
    split at h <;> cases h <;> rfl
  · rintro rfl
    cases form <;> rfl

theorem hexValue?_lt {b : UInt8} {v : Nat} (h : hexValue? b = some v) : v < 16 := by
  simp only [hexValue?, Bool.and_eq_true, decide_eq_true_eq, UInt8.le_iff_toNat_le] at h
  repeat' split at h
  all_goals simp_all
  all_goals omega

theorem hexNumber_lt (digits : Text) (h : ∀ d ∈ digits, isHexDigit d) :
    hexNumber digits < 16 ^ digits.length := by
  suffices hgen : ∀ n, digits.foldl (fun n d => n * 16 + (hexValue? d).getD 0) n
      < (n + 1) * 16 ^ digits.length by
    simpa [hexNumber] using hgen 0
  induction digits with
  | nil => intro n; simp
  | cons d rest ih =>
    intro n
    obtain ⟨v, hv⟩ := Option.isSome_iff_exists.mp (h d (by simp))
    have hlt := ih (fun d hd => h d (by simp [hd])) (n * 16 + v)
    have hv16 := hexValue?_lt hv
    have hscale : (n * 16 + v + 1) * 16 ^ rest.length ≤ (n + 1) * 16 ^ (rest.length + 1) := by
      rw [Nat.pow_succ, Nat.mul_comm (16 ^ rest.length), ← Nat.mul_assoc]
      exact Nat.mul_le_mul_right _ (by omega)
    simp only [List.foldl_cons, hv, Option.getD_some, List.length_cons]
    omega

/-! ## Digits -/

/-- The step that ends an escape which stands for `output`. -/
def State.completed (s : State) (output : Text) : Step :=
  { state := { s with escape := .ended, code := 0 }, output := output }

theorem step_octalFirst {s : State} (h : s.escape = .backslash) (a : Fin 4) :
    s.step (0x30 + UInt8.ofNat a.val)
      = .ok { state := { s with escape := .octal 0, code := (a.val : Int) } } := by
  have hdigit : ∀ a : Fin 4, simpleEscape? (0x30 + UInt8.ofNat a.val) = none ∧
      (0x30 ≤ 0x30 + UInt8.ofNat a.val && 0x30 + UInt8.ofNat a.val ≤ 0x33) = true ∧
      ((0x30 + UInt8.ofNat a.val).toNat : Int) - 0x30 = a.val := by decide
  obtain ⟨hsimple, hrange, hvalue⟩ := hdigit a
  simp only [State.step, h, State.stepBackslash, hsimple, hrange, if_true, hvalue]

theorem step_octalDigit {s : State} {seen : Fin 2} (h : s.escape = .octal seen) (b : Fin 8) :
    s.step (0x30 + UInt8.ofNat b.val)
      = if seen = 0 then
          .ok { state := { s with escape := .octal 1, code := s.code * 8 + b.val } }
        else
          (byteOutput (s.code * 8 + b.val)).map fun out =>
            { state := { s with escape := .ended, code := 0 }, output := out } := by
  have hdigit : ∀ b : Fin 8, isOctalDigit (0x30 + UInt8.ofNat b.val) = true ∧
      ((0x30 + UInt8.ofNat b.val).toNat : Int) - 0x30 = b.val := by decide
  obtain ⟨hoctal, hvalue⟩ := hdigit b
  simp only [State.step, h, State.stepOctal, hoctal, if_true, hvalue]

theorem step_octalLast {s : State} (h : s.escape = .octal 1) (b : Fin 8) :
    s.step (0x30 + UInt8.ofNat b.val) = (byteOutput (s.code * 8 + b.val)).map s.completed := by
  rw [step_octalDigit h]
  rfl

section Hex

variable {form : HexForm} {seen : Fin form.digits} {s : State} {b : UInt8} {v : Nat}

theorem step_hexDigit (h : s.escape = .hex form seen) (hv : hexValue? b = some v)
    (hmore : seen.val + 1 < form.digits) :
    s.step b = .ok { state := { s with
      escape := .hex form ⟨seen.val + 1, hmore⟩, code := s.code * 16 + v } } := by
  simp only [State.step, h, State.stepHex, hv, dif_pos hmore]

theorem step_hexLast (h : s.escape = .hex form seen) (hv : hexValue? b = some v)
    (hlast : seen.val + 1 = form.digits) :
    s.step b = (hexOutput form (s.code * 16 + v)).map s.completed := by
  have hno : ¬ seen.val + 1 < form.digits := by omega
  simp only [State.step, h, State.stepHex, hv, dif_neg hno]
  rfl

/-- A number up to 255 becomes the byte of it. -/
theorem exists_byteOutput {n : Nat} (h : n < 256) :
    ∃ out : UInt8, out.toNat = n ∧ byteOutput n = .ok [out] := by
  have hbyte : isByte n = true := by simp [isByte, UInt8.size]; omega
  refine ⟨UInt8.ofNat n, ?_, by rw [byteOutput, if_pos hbyte, Int.toNat_natCast]⟩
  rw [UInt8.toNat_ofNat', Nat.mod_eq_of_lt h]

/-- In the longer forms a number becomes the character of it, if there is one. -/
theorem hexOutput_of_code (hform : form ≠ .byte) (n : Nat) :
    hexOutput form n =
      if 0x10FFFF < n then .error (.beyondUnicode n)
      else if 0xD800 ≤ n ∧ n ≤ 0xDFFF then .error (.surrogate n)
      else .ok (Text.ofCode n) := by
  have hnonneg : ¬ (n : Int) < 0 := by omega
  have hbeyond : (0x10FFFF : Int) < n ↔ 0x10FFFF < n := by omega
  have hsurrogate : (0xD800 : Int) ≤ n ∧ (n : Int) ≤ 0xDFFF ↔ 0xD800 ≤ n ∧ n ≤ 0xDFFF := by omega
  cases form with
  | byte => exact absurd rfl hform
  | short | long =>
    simp only [hexOutput, Bool.and_eq_true, decide_eq_true_eq, hbeyond, hsurrogate, hnonneg,
      if_false, Int.toNat_natCast]

end Hex

/-! ## Escape sequences -/

/-- The last steps of a hexadecimal escape: the digits that are left end it, and only the last
one adds to the word. -/
theorem reads_hexDigits {form : HexForm} {out : Text} (digits : Text) (hne : digits ≠ [])
    (areDigits : ∀ d ∈ digits, isHexDigit d) {s : State} {seen : Fin form.digits} {n : Nat}
    (hescape : s.escape = .hex form seen) (hcode : s.code = n)
    (hlen : seen.val + digits.length = form.digits)
    (hout : hexOutput form
      ((digits.foldl (fun n d => n * 16 + (hexValue? d).getD 0) n : Nat) : Int) = .ok out) :
    ∃ steps, Reads s digits steps { s with escape := .ended, code := 0 } ∧
      steps.map (·.output) = List.replicate (digits.length - 1) [] ++ [out] := by
  -- the number read so far stands in the state, so it is generalised with the state
  induction digits generalizing s seen n with
  | nil => exact absurd rfl hne
  | cons d rest ih =>
    obtain ⟨v, hv⟩ := Option.isSome_iff_exists.mp (areDigits d (by simp))
    simp only [List.foldl_cons, hv, Option.getD_some] at hout
    have hcode' : s.code * 16 + (v : Int) = ((n * 16 + v : Nat) : Int) := by rw [hcode]; omega
    cases rest with
    | nil =>
      have hstep : s.step d = .ok (s.completed out) := by
        rw [List.foldl_nil] at hout
        rw [step_hexLast hescape hv hlen, hcode', hout]
        rfl
      exact ⟨_, .one hstep rfl, by simp [State.completed]⟩
    | cons d' rest' =>
      have hmore : seen.val + 1 < form.digits := by simp at hlen; omega
      have hstep : s.step d = .ok
          { state := { s with
              escape := .hex form ⟨seen.val + 1, hmore⟩, code := (n * 16 + v : Nat) } } := by
        rw [step_hexDigit hescape hv hmore, hcode']
      obtain ⟨steps, hreads, houts⟩ := ih (by simp)
        (fun d hd => areDigits d (List.mem_cons_of_mem _ hd))
        (s := { s with escape := .hex form ⟨seen.val + 1, hmore⟩, code := (n * 16 + v : Nat) })
        rfl rfl (by simp at hlen ⊢; omega) hout
      exact ⟨_ :: steps, .cons hstep rfl hreads, by simp [houts, List.replicate_succ]⟩

/-- The number of a hexadecimal escape is one that a byte or a code point has. -/
theorem hexOutput_hexNumber {form : HexForm} {digits : Text} (hlen : digits.length = form.digits)
    (areDigits : ∀ d ∈ digits, isHexDigit d) (names : form.Names (hexNumber digits)) :
    hexOutput form (hexNumber digits)
      = .ok (EscapeSequence.hex form digits hlen areDigits names).decoded := by
  have hlt := hexNumber_lt digits areDigits
  rw [hlen] at hlt
  cases form with
  | byte =>
    obtain ⟨out, hout, hmade⟩ := exists_byteOutput (n := hexNumber digits) hlt
    rw [hexOutput, hmade, EscapeSequence.decoded, ← hout, UInt8.ofNat_toNat]
  | short | long =>
    have hvalid : hexNumber digits < 0xD800 ∨
        0xDFFF < hexNumber digits ∧ hexNumber digits < 0x110000 := names
    rw [hexOutput_of_code (by simp), if_neg (by omega), if_neg (by omega),
      EscapeSequence.decoded]
    simp

/-- **An escape sequence is read as the bytes it stands for**, all at its last byte. -/
theorem EscapeSequence.reads_tail (e : EscapeSequence) {s : State} (h : s.escape = .backslash) :
    ∃ steps code, Reads s e.tail steps { s with escape := .ended, code := code } ∧
      steps.map (·.output) = List.replicate (e.tail.length - 1) [] ++ [e.decoded] := by
  cases e with
  | letter l byte isPair =>
    have hstep : s.step l = .ok { state := { s with escape := .ended }, output := [byte] } := by
      simp [State.step, h, State.stepBackslash, simpleEscape?_eq_some_iff.mpr isPair]
    exact ⟨_, s.code, .one hstep rfl, by simp [tail, decoded]⟩
  | octal a b c =>
    have hvalue : ((a.val : Int) * 8 + b.val) * 8 + c.val
        = (a.val * 64 + b.val * 8 + c.val : Nat) := by omega
    obtain ⟨out, hout, hmade⟩ := exists_byteOutput (n := a.val * 64 + b.val * 8 + c.val) (by omega)
    have hsecond := step_octalDigit
      (s := { s with escape := .octal 0, code := (a.val : Int) }) rfl b
    have hthird := step_octalLast
      (s := { s with escape := .octal 1, code := (a.val : Int) * 8 + b.val }) rfl c
    rw [if_pos rfl] at hsecond
    rw [hvalue, hmade] at hthird
    have hreads := Reads.cons (step_octalFirst h a) rfl (.cons hsecond rfl (.one hthird rfl))
    exact ⟨_, 0, hreads, by simp [tail, decoded, List.replicate, State.completed, ← hout]⟩
  | hex form digits hlen areDigits names =>
    have hfirst : s.step form.letter = .ok
        { state := { s with escape := .hex form ⟨0, form.digits_pos⟩, code := 0 } } := by
      have hform := hexForm?_eq_some_iff.mpr (rfl : form.letter = form.letter)
      cases form <;>
        simp [State.step, h, State.stepBackslash, HexForm.letter, simpleEscape?] at hform ⊢ <;>
        simp [hform]
    have hne : digits ≠ [] := by
      rintro rfl
      have := form.digits_pos
      simp at hlen; omega
    obtain ⟨steps, hreads, houts⟩ := reads_hexDigits digits hne areDigits
      (s := { s with escape := .hex form ⟨0, form.digits_pos⟩, code := 0 }) (n := 0) rfl rfl
      (by simpa using hlen) (hexOutput_hexNumber hlen areDigits names)
    refine ⟨_ :: steps, 0, .cons hfirst rfl hreads, ?_⟩
    obtain ⟨d, rest, rfl⟩ := List.exists_cons_of_ne_nil hne
    simp [houts, tail, List.replicate_succ]
  | control name isName =>
    have hfirst : s.step 0x63
        = .ok { state := { s with escape := .control, code := 0 } } := by
      simp [State.step, h, State.stepBackslash, simpleEscape?]
    have hname : ({ s with escape := .control, code := 0 } : State).step name = .ok
        { state := { s with escape := .ended, code := 0 }, output := [name ^^^ 0x40] } := by
      simp [State.step, State.stepControl, isName]
    exact ⟨_, 0, .cons hfirst rfl (.one hname rfl), by simp [tail, decoded]⟩

/-- The same with the backslash in front, wherever a backslash begins an escape. -/
theorem EscapeSequence.reads (e : EscapeSequence) {s m : State}
    (h : s.step 0x5C = .ok { state := { m with escape := .backslash } }) :
    ∃ steps code, Reads s e.source steps { m with escape := .ended, code := code } ∧
      steps.map (·.output) = e.outputs := by
  obtain ⟨steps, code, hreads, houts⟩ := e.reads_tail (s := { m with escape := .backslash }) rfl
  refine ⟨_, code, .cons h rfl hreads, ?_⟩
  obtain ⟨b, rest, hb⟩ := List.exists_cons_of_ne_nil e.tail_ne_nil
  simp [houts, outputs, hb, List.replicate_succ]

/-! ## Double quotes -/

theorem QuotedItem.reads (i : QuotedItem) {s : State} (hq : s.quote = .double)
    (he : s.escape.isOpen = false) :
    ∃ steps s', Reads s i.source steps s' ∧ steps.map (·.output) = i.outputs ∧
      s'.quote = .double ∧ s'.escape.isOpen = false ∧ s'.equalsSeen = s.equalsSeen := by
  cases i with
  | plain b isPlain =>
    have hstep : s.step b = .ok { state := { s with escape := .none }, output := [b] } := by
      rw [State.step_of_escape_closed he]
      simp [State.stepPlain, hq, isPlain]
    exact ⟨_, _, .one hstep rfl, rfl, hq, rfl, rfl⟩
  | escape e =>
    have hstep : s.step 0x5C = .ok { state := { s with escape := .backslash } } := by
      rw [State.step_of_escape_closed he]
      simp [State.stepPlain, hq]
    obtain ⟨steps, code, hreads, houts⟩ := e.reads hstep
    exact ⟨steps, _, hreads, houts, hq, rfl, rfl⟩

theorem reads_items (items : List QuotedItem) {s : State} (hq : s.quote = .double)
    (he : s.escape.isOpen = false) :
    ∃ steps s', Reads s (items.flatMap QuotedItem.source) steps s' ∧
      steps.map (·.output) = items.flatMap QuotedItem.outputs ∧
      s'.quote = .double ∧ s'.escape.isOpen = false ∧ s'.equalsSeen = s.equalsSeen := by
  induction items generalizing s with
  | nil => exact ⟨[], s, .nil s, rfl, hq, he, rfl⟩
  | cons i rest ih =>
    obtain ⟨steps, m, hreads, houts, hq', he', hseen⟩ := i.reads hq he
    obtain ⟨steps', s', hreads', houts', hq'', he'', hseen'⟩ := ih hq' he'
    refine ⟨steps ++ steps', s', ?_, ?_, hq'', he'', hseen'.trans hseen⟩
    · simpa using hreads.append hreads'
    · simp [houts, houts']

/-! ## Segments -/

/-- The bytes of a run in single quotes stand for themselves. -/
theorem reads_verbatim (content : Text) (noQuote : 0x27 ∉ content) {s : State}
    (hq : s.quote = .single) (he : s.escape = .none) :
    ∃ steps, Reads s content steps s ∧ steps.map (·.output) = content.map ([·]) := by
  induction content with
  | nil => exact ⟨[], .nil s, rfl⟩
  | cons b rest ih =>
    obtain ⟨steps, hreads, houts⟩ := ih (fun h => noQuote (by simp [h]))
    have hb : b ≠ 0x27 := by rintro rfl; simp at noQuote
    have hstep : s.step b = .ok { state := s, output := [b] } := by
      simp [State.step, he, State.stepPlain, hq, hb]
    exact ⟨_ :: steps, .cons hstep rfl hreads, by simp [houts]⟩

/-- **A segment is read as what it stands for** and leaves nothing open; a plain equals sign is
marked. -/
theorem Segment.reads (g : Segment) {s : State} (h : s.isOpen = false) :
    ∃ steps s', Reads s g.source steps s' ∧ steps.map (·.output) = g.outputs ∧
      s'.isOpen = false ∧ s'.equalsSeen = (s.equalsSeen || g.isEquals) := by
  cases g with
  | plain b isPlain =>
    exact ⟨_, _, .one (State.step_plain h isPlain) rfl, rfl, rfl, rfl⟩
  | escape e =>
    obtain ⟨steps, code, hreads, houts⟩ := e.reads (State.step_backslash h)
    exact ⟨steps, _, hreads, houts, rfl, by simp [isEquals, State.settled]⟩
  | single content noQuote =>
    obtain ⟨steps, hreads, houts⟩ := reads_verbatim content noQuote
      (s := { s.settled with quote := .single }) rfl rfl
    have hclose : ({ s.settled with quote := .single } : State).step 0x27
        = .ok { state := { s.settled with quote := .ended } } := rfl
    refine ⟨_, _, .cons (State.step_singleQuote h) rfl (hreads.append (.one hclose rfl)), ?_, rfl,
      by simp [isEquals, State.settled]⟩
    simp [houts, outputs]
  | double items =>
    obtain ⟨steps, m, hreads, houts, hq, he, hseen⟩ := reads_items items
      (s := { s.settled with quote := .double }) rfl rfl
    have hclose : m.step 0x22 = .ok { state := { m with escape := .none, quote := .ended } } := by
      rw [State.step_of_escape_closed he]
      simp [State.stepPlain, hq]
    refine ⟨_, _, .cons (State.step_doubleQuote h) rfl (hreads.append (.one hclose rfl)), ?_, rfl,
      by simp [isEquals, hseen, State.settled]⟩
    simp [houts, outputs]

end ConfigShell.Line

import Ece391Os.Library.Numbers
import Mathlib.Tactic.Set

namespace Ece391Os

open Data

/-! `puts` and `printf` of `lib.c`.  What they print is the list of the bytes that
they pass to `putc`. -/

def puts (memory : Memory) (s fuel : Nat) : Option (Nat × List UInt8) :=
  loop (fun printed =>
    if memory (s + printed.1) = 0 then none
    else some (printed.1 + 1, printed.2 ++ [memory (s + printed.1)])) fuel (0, [])

def padTurn (padding : Nat × Memory) : Option (Nat × Memory) :=
  if padding.1 < 8 then some (padding.1 + 1, Function.update padding.2 padding.1 48) else none

/-- `%x` and `%#x`; `convBuf` is what the buffer on the stack holds. -/
def printHex (word : BitVec 32) (alternate : Bool) (convBuf : Memory) (fuel : Nat) :
    Option (Nat × List UInt8) :=
  if alternate = false then
    (itoa word 0 16 convBuf fuel).bind fun converted => puts converted.2 0 fuel
  else
    (itoa word 8 16 convBuf fuel).bind fun converted =>
      (strlen converted.2 8 fuel).bind fun startingIndex =>
        (loop padTurn fuel (startingIndex, converted.2)).bind fun padded =>
          puts padded.2 startingIndex fuel

def printUnsigned (word : BitVec 32) (convBuf : Memory) (fuel : Nat) :
    Option (Nat × List UInt8) :=
  (itoa word 0 10 convBuf fuel).bind fun converted => puts converted.2 0 fuel

def printSigned (word : BitVec 32) (convBuf : Memory) (fuel : Nat) :
    Option (Nat × List UInt8) :=
  if word.toInt < 0 then
    (itoa (-word) 1 10 (Function.update convBuf 0 45) fuel).bind fun converted =>
      puts converted.2 0 fuel
  else (itoa word 0 10 convBuf fuel).bind fun converted => puts converted.2 0 fuel

/-- The inner `switch`, from `format_char_switch` on: what is printed, and where `buf`
and `esp` are after it.  The words are those on the stack above `format`. -/
def formatCharSwitch (memory : Memory) (words : Nat → BitVec 32) (convBuf : Memory) :
    Nat → Bool → Nat → Nat → Option (List UInt8 × Nat × Nat)
  | 0, _, _, _ => none
  | fuel + 1, alternate, buf, esp =>
      if memory buf = 37 then some ([37], buf, esp)
      else if memory buf = 35 then
        formatCharSwitch memory words convBuf fuel true (buf + 1) esp
      else if memory buf = 120 then
        (printHex (words esp) alternate convBuf fuel).map fun printed => (printed.2, buf, esp + 1)
      else if memory buf = 117 then
        (printUnsigned (words esp) convBuf fuel).map fun printed => (printed.2, buf, esp + 1)
      else if memory buf = 100 then
        (printSigned (words esp) convBuf fuel).map fun printed => (printed.2, buf, esp + 1)
      else if memory buf = 99 then
        some ([UInt8.ofBitVec ((words esp).setWidth 8)], buf, esp + 1)
      else if memory buf = 115 then
        (puts memory (words esp).toNat fuel).map fun printed => (printed.2, buf, esp + 1)
      else some ([], buf, esp)

/-- The loop of `printf`.  The buffers of the conversions are not initialised, so each
holds anything when its directive is reached. -/
def printfFrom (memory : Memory) (words : Nat → BitVec 32) (convBuf : Nat → Memory) :
    Nat → Nat → Nat → Option (List UInt8 × Nat)
  | 0, _, _ => none
  | fuel + 1, buf, esp =>
      if memory buf = 0 then some ([], buf)
      else if memory buf = 37 then
        (formatCharSwitch memory words (convBuf buf) fuel false (buf + 1) esp).bind fun directive =>
          (printfFrom memory words convBuf fuel (directive.2.1 + 1) directive.2.2).map fun rest =>
            (directive.1 ++ rest.1, rest.2)
      else
        (printfFrom memory words convBuf fuel (buf + 1) esp).map fun rest =>
          (memory buf :: rest.1, rest.2)

def printf (memory : Memory) (words : Nat → BitVec 32) (convBuf : Nat → Memory)
    (format fuel : Nat) : Option (Int × List UInt8) :=
  (printfFrom memory words convBuf fuel format 0).map fun printed =>
    ((printed.2 : Int) - format, printed.1)

/-! What a format asks for. -/

def Canonical (radix value : Nat) (text : List UInt8) : Prop :=
  ∃ digits, Numeral radix value digits ∧ text = digitText digits

def EightDigits (value : Nat) (text : List UInt8) : Prop :=
  ∃ digits, digits.length = 8 ∧ (∀ digit ∈ digits, digit < 16) ∧
    Nat.ofDigits 16 digits.reverse = value ∧ text = digitText digits

/-- A conversion specifier; `unknown` is any other letter. -/
inductive Specifier where
  | percent
  | hex
  | unsigned
  | signed
  | character
  | string (text : List UInt8)
  | unknown (letter : UInt8)

namespace Specifier

def letter : Specifier → UInt8
  | percent => 37
  | hex => 120
  | unsigned => 117
  | signed => 100
  | character => 99
  | string _ => 115
  | unknown letter => letter

def takes : Specifier → Nat
  | percent | unknown _ => 0
  | _ => 1

def Fits (memory : Memory) (word : BitVec 32) : Specifier → Prop
  | string text => Terminated memory word.toNat text
  | unknown letter => letter ∉ ([37, 35, 120, 117, 100, 99, 115] : List UInt8)
  | _ => True

def Prints (alternate : Bool) (word : BitVec 32) : Specifier → List UInt8 → Prop
  | percent, text => text = [37]
  | hex, text =>
      if alternate = true then EightDigits word.toNat text else Canonical 16 word.toNat text
  | unsigned, text => Canonical 10 word.toNat text
  | signed, text =>
      if word.toInt < 0 then
        ∃ magnitude, text = 45 :: magnitude ∧ Canonical 10 (-word.toInt).toNat magnitude
      else Canonical 10 word.toInt.toNat text
  | character, text => text = [UInt8.ofBitVec (word.setWidth 8)]
  | string shown, text => text = shown
  | unknown _, text => text = []

end Specifier

inductive Chunk where
  | plain (byte : UInt8)
  | directive (hashes : Nat) (specifier : Specifier)

namespace Chunk

def source : Chunk → List UInt8
  | plain byte => [byte]
  | directive hashes specifier => 37 :: (List.replicate hashes 35 ++ [specifier.letter])

def takes : Chunk → Nat
  | plain _ => 0
  | directive _ specifier => specifier.takes

def Fits (memory : Memory) (word : BitVec 32) : Chunk → Prop
  | plain byte => byte ≠ 37
  | directive _ specifier => specifier.Fits memory word

def Prints (word : BitVec 32) : Chunk → List UInt8 → Prop
  | plain byte, text => text = [byte]
  | directive hashes specifier, text => specifier.Prints (decide (0 < hashes)) word text

end Chunk

def FormatFits (memory : Memory) (words : Nat → BitVec 32) : List Chunk → Nat → Prop
  | [], _ => True
  | chunk :: rest, esp =>
      chunk.Fits memory (words esp) ∧ FormatFits memory words rest (esp + chunk.takes)

/-- The chunks of a format print one after the other, and take words as they need. -/
def FormatPrints (words : Nat → BitVec 32) : List Chunk → Nat → List UInt8 → Prop
  | [], _, text => text = []
  | chunk :: rest, esp, text => ∃ first others, text = first ++ others ∧
      chunk.Prints (words esp) first ∧ FormatPrints words rest (esp + chunk.takes) others

/-! The conversions. -/

section Conversions

variable {memory : Memory} {text : List UInt8}

theorem Terminated.puts {s : Nat} (terminated : Terminated memory s text) :
    Returns (puts memory s) (text.length, text) := by
  obtain ⟨printed, steps, here⟩ := Steps.rounds
    (fun printed : Nat × List UInt8 =>
      if memory (s + printed.1) = 0 then none
      else some (printed.1 + 1, printed.2 ++ [memory (s + printed.1)]))
    (fun k printed => printed = (k, text.take k)) text.length (0, []) rfl (by
      rintro k below printed rfl
      have byte := terminated.bytes k below
      refine ⟨_, if_neg ?_, ?_⟩
      · rw [byte]
        exact terminated.nonzero _ (List.getElem_mem below)
      · simp only [byte, List.take_append_getElem below])
  rw [List.take_length] at here
  subst here
  exact steps.returns (if_pos terminated.ends)

theorem Terminated.head {s : Nat} {byte : UInt8} {rest : List UInt8}
    (terminated : Terminated memory s (byte :: rest)) :
    memory s = byte ∧ Terminated memory (s + 1) rest := by
  obtain ⟨bytes, nonzero, ends⟩ := terminated
  have moved (k : Nat) : s + 1 + k = s + (k + 1) := by omega
  refine ⟨bytes 0 (Nat.succ_pos _), ?_, ?_, ?_⟩
  · intro k inside
    rw [moved]
    exact bytes (k + 1) (Nat.succ_lt_succ inside)
  · exact fun byte member => nonzero byte (List.mem_cons_of_mem _ member)
  · rw [moved]
    exact ends

theorem Terminated.cons {s : Nat} {byte : UInt8} (terminated : Terminated memory (s + 1) text)
    (first : memory s = byte) (nonzero : byte ≠ 0) : Terminated memory s (byte :: text) := by
  have moved (k : Nat) : s + (k + 1) = s + 1 + k := by omega
  refine ⟨?_, ?_, ?_⟩
  · intro k inside
    cases k with
    | zero => exact first
    | succ k =>
        have byte := terminated.bytes k (Nat.lt_of_succ_lt_succ inside)
        rw [← moved] at byte
        exact byte
  · intro other member
    rcases List.mem_cons.mp member with rfl | later
    · exact nonzero
    · exact terminated.nonzero other later
  · rw [List.length_cons, moved]
    exact terminated.ends

theorem canonical_numeral {radix : Nat} (base : 1 < radix) (value : Nat) :
    Canonical radix value (digitText (numeral radix value)) :=
  ⟨_, numeral_spec base value, rfl⟩

theorem itoa_puts (word radix : BitVec 32) (convBuf : Memory) (base : 1 < radix.toNat)
    (alphabet : radix.toNat ≤ 36) :
    ∃ text, Returns (fun fuel => (itoa word 0 radix convBuf fuel).bind fun converted =>
        puts converted.2 0 fuel) (text.length, text) ∧
      Canonical radix.toNat word.toNat text := by
  obtain ⟨after, returns, converts⟩ := itoa_returns word 0 radix convBuf base alphabet
  exact ⟨_, returns.bind converts.text.puts, canonical_numeral base word.toNat⟩

theorem printUnsigned_returns (word : BitVec 32) (convBuf : Memory) :
    ∃ text, Returns (printUnsigned word convBuf) (text.length, text) ∧
      Canonical 10 word.toNat text :=
  itoa_puts word 10 convBuf (by decide) (by decide)

theorem toNat_of_nonneg {word : BitVec 32} (positive : ¬ word.toInt < 0) :
    word.toInt.toNat = word.toNat := by
  have bound := word.isLt
  rw [BitVec.toInt_eq_toNat_cond] at positive ⊢
  split at positive
  · rename_i small
    rw [if_pos small]
    exact Int.toNat_natCast _
  · omega

theorem toNat_neg_of_neg {word : BitVec 32} (negative : word.toInt < 0) :
    (-word).toNat = (-word.toInt).toNat := by
  have bound := word.isLt
  rw [BitVec.toInt_eq_toNat_cond] at negative ⊢
  rw [BitVec.toNat_neg]
  split at negative
  · omega
  · rename_i large
    rw [if_neg large]
    omega

theorem printSigned_returns (word : BitVec 32) (convBuf : Memory) :
    ∃ text, Returns (printSigned word convBuf) (text.length, text) ∧
      Specifier.signed.Prints false word text := by
  by_cases negative : word.toInt < 0
  · obtain ⟨after, returns, converts⟩ := itoa_returns (-word) 1 10
      (Function.update convBuf 0 45) (by decide) (by decide)
    have sign : after 0 = 45 := by
      rw [converts.outside 0 (.inl Nat.one_pos), Function.update_self]
    have whole := converts.text.cons sign (by decide)
    refine ⟨45 :: digitText (numeral 10 (-word).toNat), ?_, ?_⟩
    · have printed : printSigned word convBuf = fun fuel =>
          (itoa (-word) 1 10 (Function.update convBuf 0 45) fuel).bind fun converted =>
            puts converted.2 0 fuel := funext fun fuel => if_pos negative
      rw [printed]
      exact returns.bind whole.puts
    · simp only [Specifier.Prints, if_pos negative]
      refine ⟨_, rfl, ?_⟩
      rw [← toNat_neg_of_neg negative]
      exact canonical_numeral (by decide) _
  · obtain ⟨text, returns, canonical⟩ := itoa_puts word 10 convBuf (by decide) (by decide)
    refine ⟨text, ?_, ?_⟩
    · have printed : printSigned word convBuf = fun fuel =>
          (itoa word 0 10 convBuf fuel).bind fun converted => puts converted.2 0 fuel :=
        funext fun fuel => if_neg negative
      rw [printed]
      exact returns
    · simp only [Specifier.Prints, if_neg negative]
      rw [toNat_of_nonneg negative]
      exact canonical

theorem padded_returns {convBuf : Memory} (start : Nat) (room : start ≤ 8)
    (terminated : Terminated convBuf 8 text) :
    ∃ padded, Returns (fun fuel => loop padTurn fuel (start, convBuf)) (8, padded) ∧
      Terminated padded start (List.replicate (8 - start) 48 ++ text) := by
  obtain ⟨padding, steps, position, bytes⟩ := Steps.rounds padTurn
    (fun k padding => padding.1 = start + k ∧ ∀ address, padding.2 address =
      if start ≤ address ∧ address < start + k then 48 else convBuf address)
    (8 - start) (start, convBuf) ⟨rfl, fun address => by rw [if_neg (by omega)]⟩ (by
      rintro k below padding ⟨position, bytes⟩
      refine ⟨_, if_pos (by omega), by simp only [position]; omega, ?_⟩
      simp only [position]
      exact Memory.update_stored (fun _ => 48) bytes)
  obtain ⟨last, padded⟩ := padding
  obtain rfl : last = 8 := by
    simp only at position
    omega
  refine ⟨padded, steps.returns (if_neg (Nat.lt_irrefl _)), ?_, ?_, ?_⟩
  · intro k inside
    rw [List.length_append, List.length_replicate] at inside
    simp only at bytes
    by_cases zero : k < 8 - start
    · rw [bytes, if_pos (by omega), List.getElem_append_left (by simpa using zero),
        List.getElem_replicate]
    · rw [bytes, if_neg (by omega), List.getElem_append_right (by simpa using zero)]
      simp only [List.length_replicate]
      rw [← terminated.bytes _ (by omega)]
      congr 1
      omega
  · intro byte member
    rcases List.mem_append.mp member with zero | digit
    · rw [List.eq_of_mem_replicate zero]
      decide
    · exact terminated.nonzero byte digit
  · have ends := terminated.ends
    simp only at bytes
    rw [List.length_append, List.length_replicate, bytes, if_neg (by omega), ← ends]
    congr 1
    omega

theorem printHex_returns (word : BitVec 32) (alternate : Bool) (convBuf : Memory) :
    ∃ text, Returns (printHex word alternate convBuf) (text.length, text) ∧
      Specifier.hex.Prints alternate word text := by
  cases alternate with
  | false => exact itoa_puts word 16 convBuf (by decide) (by decide)
  | true =>
      obtain ⟨after, returns, converts⟩ := itoa_returns word 8 16 convBuf (by decide)
        (by decide)
      set digits := numeral (16 : BitVec 32).toNat word.toNat with digitsDef
      have short : digits.length ≤ 8 := length_numeral_le (by decide) (by decide) word.isLt
      have length := length_digitText digits
      obtain ⟨padded, pads, whole⟩ := padded_returns (digitText digits).length (by omega)
        converts.text
      refine ⟨_, returns.bind (converts.text.strlen.bind (pads.bind whole.puts)), ?_⟩
      refine ⟨List.replicate (8 - digits.length) 0 ++ digits, ?_, ?_, ?_, ?_⟩
      · rw [List.length_append, List.length_replicate]
        omega
      · intro digit member
        rcases List.mem_append.mp member with zero | inside
        · rw [List.eq_of_mem_replicate zero]
          decide
        · exact (numeral_spec (by decide) word.toNat).lt digit inside
      · rw [ofDigits_padded]
        exact (numeral_spec (by decide) word.toNat).value
      · rw [length, digitText, digitText, List.map_append, List.map_replicate]
        rfl

end Conversions

/-! Whole formats. -/

section Formats

variable {memory : Memory} {words : Nat → BitVec 32} {buf esp : Nat}

theorem Specifier.returns (specifier : Specifier) (alternate : Bool) (convBuf : Memory)
    (here : memory buf = specifier.letter) (fits : specifier.Fits memory (words esp)) :
    ∃ text, Returns (fun fuel => formatCharSwitch memory words convBuf fuel alternate buf esp)
        (text, buf, esp + specifier.takes) ∧
      specifier.Prints alternate (words esp) text := by
  cases specifier with
  | percent =>
      refine ⟨[37], .succ (.pure _) fun fuel => ?_, rfl⟩
      simp [formatCharSwitch, here, letter, takes]
  | hex =>
      obtain ⟨text, returns, prints⟩ := printHex_returns (words esp) alternate convBuf
      refine ⟨text, .succ (returns.map fun printed => (printed.2, buf, esp + 1)) fun fuel => ?_,
        prints⟩
      simp [formatCharSwitch, here, letter]
  | unsigned =>
      obtain ⟨text, returns, prints⟩ := printUnsigned_returns (words esp) convBuf
      refine ⟨text, .succ (returns.map fun printed => (printed.2, buf, esp + 1)) fun fuel => ?_,
        prints⟩
      simp [formatCharSwitch, here, letter]
  | signed =>
      obtain ⟨text, returns, prints⟩ := printSigned_returns (words esp) convBuf
      refine ⟨text, .succ (returns.map fun printed => (printed.2, buf, esp + 1)) fun fuel => ?_,
        prints⟩
      simp [formatCharSwitch, here, letter]
  | character =>
      refine ⟨_, .succ (.pure _) fun fuel => ?_, rfl⟩
      simp [formatCharSwitch, here, letter, takes]
  | string shown =>
      have fits : Terminated memory (words esp).toNat shown := fits
      refine ⟨shown, .succ (fits.puts.map fun printed => (printed.2, buf, esp + 1)) fun fuel => ?_,
        rfl⟩
      simp [formatCharSwitch, here, letter]
  | unknown other =>
      refine ⟨[], .succ (.pure _) fun fuel => ?_, rfl⟩
      simp only [Fits, List.mem_cons, List.not_mem_nil, or_false, not_or] at fits
      simp [formatCharSwitch, here, letter, takes, fits]

theorem directive_returns {specifier : Specifier} {rest : List UInt8} {hashes : Nat}
    (alternate : Bool) (convBuf : Memory)
    (terminated : Terminated memory buf
      (List.replicate hashes 35 ++ specifier.letter :: rest))
    (fits : specifier.Fits memory (words esp)) :
    ∃ text, Returns (fun fuel => formatCharSwitch memory words convBuf fuel alternate buf esp)
        (text, buf + hashes, esp + specifier.takes) ∧
      specifier.Prints (alternate || decide (0 < hashes)) (words esp) text ∧
      Terminated memory (buf + hashes + 1) rest := by
  induction hashes generalizing buf alternate with
  | zero =>
      obtain ⟨here, after⟩ := terminated.head
      obtain ⟨text, returns, prints⟩ := specifier.returns alternate convBuf here fits
      refine ⟨text, returns, ?_, after⟩
      rw [decide_eq_false (Nat.lt_irrefl 0), Bool.or_false]
      exact prints
  | succ hashes induction =>
      obtain ⟨here, after⟩ := terminated.head
      obtain ⟨text, returns, prints, ends⟩ := induction true after
      have moved : buf + 1 + hashes = buf + (hashes + 1) := by omega
      rw [moved] at returns ends
      refine ⟨text, .succ returns fun fuel => ?_, ?_, ends⟩
      · simp [formatCharSwitch, here]
      · rw [decide_eq_true (Nat.succ_pos hashes), Bool.or_true]
        exact prints

theorem printfFrom_returns (convBuf : Nat → Memory) (chunks : List Chunk)
    (terminated : Terminated memory buf (chunks.flatMap Chunk.source))
    (fits : FormatFits memory words chunks esp) :
    ∃ text, Returns (fun fuel => printfFrom memory words convBuf fuel buf esp)
        (text, buf + (chunks.flatMap Chunk.source).length) ∧
      FormatPrints words chunks esp text := by
  induction chunks generalizing buf esp with
  | nil =>
      refine ⟨[], .succ (.pure _) fun fuel => ?_, rfl⟩
      simp [printfFrom, show memory buf = 0 from terminated.ends]
  | cons chunk rest induction =>
      obtain ⟨chunkFits, restFits⟩ := fits
      cases chunk with
      | plain byte =>
          have nonzero := terminated.nonzero byte List.mem_cons_self
          obtain ⟨here, after⟩ := terminated.head
          obtain ⟨text, returns, prints⟩ := induction after restFits
          have printed := returns.map fun others => (byte :: others.1, others.2)
          refine ⟨byte :: text, ?_, [byte], text, rfl, rfl, prints⟩
          rw [show buf + (List.flatMap Chunk.source (Chunk.plain byte :: rest)).length =
            buf + 1 + (rest.flatMap Chunk.source).length by
              simp only [List.flatMap_cons, Chunk.source, List.length_append,
                List.length_singleton]
              omega]
          refine .succ printed fun fuel => ?_
          have plain : ¬ byte = 37 := chunkFits
          simp [printfFrom, here, nonzero, plain, Chunk.takes]
      | directive hashes specifier =>
          have bytes : List.flatMap Chunk.source (Chunk.directive hashes specifier :: rest) =
              37 :: (List.replicate hashes 35 ++
                specifier.letter :: rest.flatMap Chunk.source) := by
            simp [Chunk.source]
          rw [bytes] at terminated ⊢
          obtain ⟨here, after⟩ := terminated.head
          obtain ⟨first, directive, firstPrints, after⟩ :=
            directive_returns false (convBuf buf) after chunkFits
          obtain ⟨others, returns, prints⟩ := induction after restFits
          have printed : Returns (fun fuel =>
              (formatCharSwitch memory words (convBuf buf) fuel false (buf + 1) esp).bind
                fun directive =>
                  (printfFrom memory words convBuf fuel (directive.2.1 + 1) directive.2.2).map
                    fun rest => (directive.1 ++ rest.1, rest.2)) _ :=
            directive.bind (returns.map fun rest => (first ++ rest.1, rest.2))
          refine ⟨first ++ others, ?_, first, others, rfl, ?_, prints⟩
          · rw [show buf + (37 :: (List.replicate hashes 35 ++
                specifier.letter :: rest.flatMap Chunk.source)).length =
              buf + 1 + hashes + 1 + (rest.flatMap Chunk.source).length by
                simp only [List.length_cons, List.length_append, List.length_replicate]
                omega]
            refine .succ printed fun fuel => ?_
            simp [printfFrom, here]
          · rw [Bool.false_or] at firstPrints
            exact firstPrints

end Formats

/-- The text that `itoa` leaves for a number: it is in the digits of the table, has no
more of them than a word has bits, and is the only one without zeros in front. -/
structure NumberText (radix value buf : Nat) (before after : Memory) (text : List UInt8) :
    Prop where
  stored : Terminated after buf text
  alphabet : ∀ byte ∈ text, byte ∈ lookup
  short : text.length ≤ 32
  canonical : Canonical radix value text
  only : ∀ other, Canonical radix value other → other = text
  outside : ∀ address, address < buf ∨ buf + text.length < address →
    after address = before address

theorem digitChar_mem {digit : Nat} (small : digit < 36) : digitChar digit ∈ lookup := by
  have every : ∀ digit < 36, digitChar digit ∈ lookup := by decide
  exact every digit small

theorem Converts.numberText {radix value buf : Nat} {before after : Memory}
    (converts : Converts radix value buf before after) (base : 1 < radix) (alphabet : radix ≤ 36)
    (small : value < 2 ^ 32) :
    NumberText radix value buf before after (digitText (numeral radix value)) := by
  have numeral := numeral_spec base value
  have length := length_digitText (Data.numeral radix value)
  refine ⟨converts.text, ?_, ?_, canonical_numeral base value, ?_, ?_⟩
  · intro byte member
    obtain ⟨digit, inside, rfl⟩ := List.mem_map.mp member
    exact digitChar_mem (Nat.lt_of_lt_of_le (numeral.lt digit inside) alphabet)
  · rw [length]
    exact length_numeral_le base (by decide)
      (Nat.lt_of_lt_of_le small (Nat.pow_le_pow_left base 32))
  · rintro other ⟨digits, same, rfl⟩
    rw [same.eq base]
  · rw [length]
    exact converts.outside

/-- `itoa` leaves the numeral of every number in every radix, and `printf` prints each
chunk of a format as it asks. -/
theorem numberFormatting :
    (∀ (value radix : BitVec 32) (buf : Nat) (memory : Memory),
      2 ≤ radix.toNat → radix.toNat ≤ 36 →
      ∃ after text, Returns (itoa value buf radix memory) (buf, after) ∧
        NumberText radix.toNat value.toNat buf memory after text) ∧
    ∀ (memory : Memory) (words : Nat → BitVec 32) (convBuf : Nat → Memory) (format : Nat)
      (chunks : List Chunk), Terminated memory format (chunks.flatMap Chunk.source) →
      FormatFits memory words chunks 0 →
      ∃ text, Returns (printf memory words convBuf format)
          ((chunks.flatMap Chunk.source).length, text) ∧
        FormatPrints words chunks 0 text := by
  refine ⟨?_, ?_⟩
  · intro value radix buf memory base alphabet
    obtain ⟨after, returns, converts⟩ := itoa_returns value buf radix memory base alphabet
    exact ⟨after, _, returns, converts.numberText base alphabet value.isLt⟩
  · intro memory words convBuf format chunks terminated fits
    obtain ⟨text, returns, prints⟩ := printfFrom_returns convBuf chunks terminated fits
    refine ⟨text, ?_, prints⟩
    have printed := returns.map fun printed => ((printed.2 : Int) - format, printed.1)
    have count : ((format + (chunks.flatMap Chunk.source).length : Nat) : Int) - format =
        (chunks.flatMap Chunk.source).length := by omega
    rwa [count] at printed

theorem formatting_sample :
    (∃ after text, Returns (itoa 0x80000000#32 0 36#32 fun _ => 0) (0, after) ∧
      NumberText 36 (0x80000000#32).toNat 0 (fun _ => 0) after text) ∧
    ∃ text, Returns (printf (fun k => if k = 0 then 37 else if k = 1 then 100 else 0)
        (fun _ => 0x80000000#32) (fun _ _ => 7) 0) (2, text) ∧
      FormatPrints (fun _ => 0x80000000#32) [.directive 0 .signed] 0 text := by
  refine ⟨numberFormatting.1 0x80000000#32 36#32 0 (fun _ => 0) (by decide) (by decide),
    numberFormatting.2 _ _ (fun _ _ => 7) 0 [.directive 0 .signed] ⟨?_, ?_, rfl⟩
      ⟨trivial, trivial⟩⟩
  · intro k inside
    rcases k with _ | _ | k
    · rfl
    · rfl
    · have short : k + 1 + 1 < 2 := inside
      omega
  · intro byte member
    have member : byte ∈ [(37 : UInt8), 100] := member
    simp only [List.mem_cons, List.not_mem_nil, or_false] at member
    rcases member with rfl | rfl
    · decide
    · decide

end Ece391Os

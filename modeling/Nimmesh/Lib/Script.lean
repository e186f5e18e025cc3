import Nimmesh.Lib.Rlp

/-! @lib script | name:A stack language with conditionals | scope:general

    A script is a list of operations on a stack of byte strings. The operations between the branch marks of a
    conditional are skipped or run, by the top of the stack; whatever looks outside the stack (a hash, a
    signature, a lock time) is a parameter. `accepts_conditional_iff` says what a script that is one conditional
    accepts, in terms of its two branches alone. -/

namespace Script

abbrev Item := List UInt8
abbrev Stack := List Item

/-- What looks outside the stack; a signature check can also make the script fail. -/
structure Checks where
  sha256 : Item → Item
  checkSig : Item → Item → Option Bool
  lockTime : Item → Bool

/-- The bytes that one length byte can push. -/
abbrev ShortItem := {data : Item // data.length ≤ 75}

/-- The operations on the stack. -/
inductive Instr where
  | push (data : ShortItem)
  | pushSmall (n : Fin 16)
  | pushNegOne
  | sha256
  | equalVerify
  | checkSig
  | checkLockTimeVerify
  | drop
  deriving DecidableEq

/-- An operation on the stack, or a mark of a conditional. -/
inductive Op where
  | instr (i : Instr)
  | opIf
  | opElse
  | opEndif
  deriving DecidableEq

/-! ### Running -/

/-- A string is false if it is zero, also negative zero. -/
def truthy (item : Item) : Bool :=
  item.any (· ≠ 0) && !(item.getLast? = some 0x80 && item.dropLast.all (· = 0))

def flag (b : Bool) : Item := if b then [1] else []

section Running

variable (c : Checks)

def Instr.apply : Instr → Stack → Option Stack
  | .push data, st => some (data.1 :: st)
  | .pushSmall n, st => some ([n.1.toUInt8 + 1] :: st)
  | .pushNegOne, st => some ([0x81] :: st)
  | .sha256, a :: st => some (c.sha256 a :: st)
  | .equalVerify, a :: b :: st => if a = b then some st else none
  | .checkSig, key :: sig :: st => (c.checkSig sig key).map fun ok => flag ok :: st
  | .checkLockTimeVerify, a :: st => if c.lockTime a then some (a :: st) else none
  | .drop, _ :: st => some st
  | _, _ => none

/-- The stack, and for each open conditional whether the branch at hand is the one to run. -/
structure State where
  stack : Stack
  conds : List Bool

def Op.step : Op → State → Option State
  | .instr i, s => if s.conds.all id then (i.apply c s.stack).map fun st => ⟨st, s.conds⟩ else some s
  | .opIf, s =>
    if s.conds.all id then
      match s.stack with
      | [] => none
      | cond :: st => some ⟨st, truthy cond :: s.conds⟩
    else some ⟨s.stack, false :: s.conds⟩
  | .opElse, s =>
    match s.conds with
    | [] => none
    | b :: conds => some ⟨s.stack, (!b) :: conds⟩
  | .opEndif, s =>
    match s.conds with
    | [] => none
    | _ :: conds => some ⟨s.stack, conds⟩

def run : List Op → State → Option State
  | [], s => some s
  | op :: ops, s => (op.step c s).bind (run ops)

/-- The longest string of an initial stack. -/
def maxItemLen : ℕ := 520

/-- Whether a script accepts a stack, given from the bottom: one true string is left, and no open conditional. -/
def accepts (script : List Op) (items : List Item) : Bool :=
  items.all (fun item => decide (item.length ≤ maxItemLen)) &&
    match run c script ⟨items.reverse, []⟩ with
    | some ⟨[top], []⟩ => truthy top
    | _ => false

/-- A branch without conditionals of its own. -/
def applyAll : List Instr → Stack → Option Stack
  | [], st => some st
  | i :: is, st => (i.apply c st).bind (applyAll is)

/-- A script that is one conditional. -/
def conditional (yes no : List Instr) : List Op :=
  .opIf :: (yes.map .instr ++ .opElse :: (no.map .instr ++ [.opEndif]))

variable {c}

/-! ### What an operation does -/

@[simp] theorem applyAll_nil {st st' : Stack} : applyAll c [] st = some st' ↔ st = st' := by
  rw [applyAll, Option.some.injEq]

@[simp] theorem applyAll_cons {i : Instr} {is : List Instr} {st st' : Stack} :
    applyAll c (i :: is) st = some st' ↔ ∃ mid, i.apply c st = some mid ∧ applyAll c is mid = some st' := by
  rw [applyAll, Option.bind_eq_some_iff]

@[simp] theorem apply_push {data : ShortItem} {st st' : Stack} :
    Instr.apply c (.push data) st = some st' ↔ data.1 :: st = st' := by
  rw [Instr.apply, Option.some.injEq]

@[simp] theorem apply_sha256 {st st' : Stack} :
    Instr.apply c .sha256 st = some st' ↔ ∃ a rest, st = a :: rest ∧ c.sha256 a :: rest = st' := by
  cases st with
  | nil => simp [Instr.apply]
  | cons a rest => simp [Instr.apply]

@[simp] theorem apply_equalVerify {st st' : Stack} :
    Instr.apply c .equalVerify st = some st' ↔ ∃ a, st = a :: a :: st' := by
  cases st with
  | nil => simp [Instr.apply]
  | cons a rest =>
    cases rest with
    | nil => simp [Instr.apply]
    | cons b rest =>
      simp only [Instr.apply, Option.ite_none_right_eq_some, Option.some.injEq, List.cons.injEq]
      constructor
      · rintro ⟨rfl, rfl⟩
        exact ⟨a, rfl, rfl, rfl⟩
      · rintro ⟨a', rfl, rfl, rfl⟩
        exact ⟨rfl, rfl⟩

@[simp] theorem apply_checkSig {st st' : Stack} : Instr.apply c .checkSig st = some st' ↔
    ∃ key sig rest ok, st = key :: sig :: rest ∧ c.checkSig sig key = some ok ∧ flag ok :: rest = st' := by
  cases st with
  | nil => simp [Instr.apply]
  | cons key rest =>
    cases rest with
    | nil => simp [Instr.apply]
    | cons sig rest =>
      simp only [Instr.apply, Option.map_eq_some_iff, List.cons.injEq]
      constructor
      · rintro ⟨ok, hok, rfl⟩
        exact ⟨key, sig, rest, ok, ⟨rfl, rfl, rfl⟩, hok, rfl⟩
      · rintro ⟨_, _, _, ok, ⟨rfl, rfl, rfl⟩, hok, rfl⟩
        exact ⟨ok, hok, rfl⟩

@[simp] theorem apply_checkLockTimeVerify {st st' : Stack} : Instr.apply c .checkLockTimeVerify st = some st' ↔
    ∃ a rest, st = a :: rest ∧ c.lockTime a = true ∧ st = st' := by
  cases st with
  | nil => simp [Instr.apply]
  | cons a rest => simp [Instr.apply]

@[simp] theorem apply_drop {st st' : Stack} : Instr.apply c .drop st = some st' ↔ ∃ a, st = a :: st' := by
  cases st with
  | nil => simp [Instr.apply]
  | cons a rest => simp [Instr.apply]

theorem truthy_flag (b : Bool) : truthy (flag b) = b := by
  cases b <;> decide

/-! ### What a conditional does -/

theorem run_append (ops ops' : List Op) (s : State) : run c (ops ++ ops') s = (run c ops s).bind (run c ops') := by
  induction ops generalizing s with
  | nil => rfl
  | cons op ops ih =>
    rw [List.cons_append, run, run, Option.bind_assoc]
    exact congrArg _ (funext ih)

/-- A branch that is run does to the stack what its operations do. -/
theorem run_block {conds : List Bool} (h : conds.all id = true) (is : List Instr) (st : Stack) :
    run c (is.map .instr) ⟨st, conds⟩ = (applyAll c is st).map fun st' => ⟨st', conds⟩ := by
  induction is generalizing st with
  | nil => rfl
  | cons i is ih =>
    rw [List.map_cons, run, Op.step, if_pos h, applyAll]
    cases i.apply c st with
    | none => rfl
    | some st' => exact ih st'

/-- A branch that is not run does nothing. -/
theorem run_skip {conds : List Bool} (h : conds.all id = false) (is : List Instr) (st : Stack) :
    run c (is.map .instr) ⟨st, conds⟩ = some ⟨st, conds⟩ := by
  induction is with
  | nil => rfl
  | cons i is ih =>
    have hstep : Op.step c (.instr i) ⟨st, conds⟩ = some ⟨st, conds⟩ := by
      rw [Op.step, h]
      rfl
    rw [List.map_cons, run, hstep]
    exact ih

/-- RUN: a conditional is the one or the other branch, by the top of the stack. -/
theorem run_conditional (yes no : List Instr) (cond : Item) (st : Stack) :
    run c (conditional yes no) ⟨cond :: st, []⟩ =
      (applyAll c (if truthy cond then yes else no) st).map fun st' => ⟨st', []⟩ := by
  have hopen : run c (conditional yes no) ⟨cond :: st, []⟩ =
      run c (yes.map .instr ++ .opElse :: (no.map .instr ++ [.opEndif])) ⟨st, [truthy cond]⟩ := rfl
  rw [hopen, run_append]
  cases hcond : truthy cond with
  | false =>
    rw [run_skip (by rfl), Option.bind_some, run, Op.step, Option.bind_some, run_append, run_block (by rfl),
      if_neg Bool.false_ne_true]
    cases applyAll c no st with
    | none => rfl
    | some st' => rfl
  | true =>
    rw [run_block (by rfl), if_pos rfl]
    cases applyAll c yes st with
    | none => rfl
    | some st' =>
      rw [Option.map_some, Option.bind_some, run, Op.step, Option.bind_some, run_append, run_skip (by rfl)]
      rfl

/-- CORRECT: what a script that is one conditional accepts. -/
theorem accepts_conditional_iff {yes no : List Instr} {items : List Item} :
    accepts c (conditional yes no) items = true ↔ (∀ item ∈ items, item.length ≤ maxItemLen) ∧
      ∃ below cond top, items = below ++ [cond] ∧
        applyAll c (if truthy cond then yes else no) below.reverse = some [top] ∧ truthy top = true := by
  rw [accepts, Bool.and_eq_true, List.all_eq_true]
  simp only [decide_eq_true_eq]
  refine and_congr_right fun _ => ?_
  rcases List.eq_nil_or_concat' items with rfl | ⟨below, cond, rfl⟩
  · simp [run, conditional, Op.step]
  · rw [List.reverse_append, List.reverse_singleton, List.singleton_append, run_conditional]
    constructor
    · intro h
      cases happly : applyAll c (if truthy cond then yes else no) below.reverse with
      | none => simp [happly] at h
      | some st =>
        rw [happly] at h
        rcases st with _ | ⟨top, _ | ⟨next, st⟩⟩
        · simp at h
        · exact ⟨below, cond, top, rfl, happly, h⟩
        · simp at h
    · rintro ⟨below', cond', top, heq, happly, htop⟩
      obtain ⟨rfl, hcond⟩ := List.append_inj' heq rfl
      obtain rfl := List.singleton_inj.mp hcond
      rw [happly]
      exact htop

end Running

/-! ### Bytes -/

/-- The byte of an operation that carries no data. -/
def Instr.bytes : Instr → List UInt8
  | .push data => data.1.length.toUInt8 :: data.1
  | .pushSmall n => [(0x51 + n.1).toUInt8]
  | .pushNegOne => [0x4f]
  | .sha256 => [0xa8]
  | .equalVerify => [0x88]
  | .checkSig => [0xac]
  | .checkLockTimeVerify => [0xb1]
  | .drop => [0x75]

def Op.bytes : Op → List UInt8
  | .instr i => i.bytes
  | .opIf => [0x63]
  | .opElse => [0x67]
  | .opEndif => [0x68]

def bytes (script : List Op) : List UInt8 := script.flatMap Op.bytes

/-- The operation of a byte that is no length. -/
def ofByte (b : UInt8) : Option Op :=
  if h : 0x51 ≤ b.toNat ∧ b.toNat ≤ 0x60 then some (.instr (.pushSmall ⟨b.toNat - 0x51, by omega⟩))
  else if b = 0x4f then some (.instr .pushNegOne)
  else if b = 0x63 then some .opIf
  else if b = 0x67 then some .opElse
  else if b = 0x68 then some .opEndif
  else if b = 0x75 then some (.instr .drop)
  else if b = 0x88 then some (.instr .equalVerify)
  else if b = 0xa8 then some (.instr .sha256)
  else if b = 0xac then some (.instr .checkSig)
  else if b = 0xb1 then some (.instr .checkLockTimeVerify)
  else none

/-- Read one operation. -/
def readOp : List UInt8 → Option (Op × List UInt8)
  | [] => none
  | b :: rest =>
    if h : b.toNat ≤ 75 then
      if rest.length < b.toNat then none
      else some (.instr (.push ⟨rest.take b.toNat, Nat.le_trans (List.length_take_le _ _) h⟩), rest.drop b.toNat)
    else (ofByte b).map fun op => (op, rest)

def readOps : ℕ → List UInt8 → Option (List Op)
  | _, [] => some []
  | 0, _ :: _ => none
  | n + 1, b :: rest => (readOp (b :: rest)).bind fun r => (readOps n r.2).map (r.1 :: ·)

def parse (script : List UInt8) : Option (List Op) := readOps script.length script

theorem readOp_bytes (op : Op) (rest : List UInt8) : readOp (op.bytes ++ rest) = some (op, rest) := by
  cases op with
  | opIf => rfl
  | opElse => rfl
  | opEndif => rfl
  | instr i =>
    cases i with
    | push data =>
      have hlen : data.1.length.toUInt8.toNat = data.1.length := by
        have hshort := data.2
        rw [Nat.toUInt8_eq, UInt8.toNat_ofNat', Nat.mod_eq_of_lt (by omega)]
      have htake : (data.1 ++ rest).take data.1.length = data.1 := List.take_left
      have hdrop : (data.1 ++ rest).drop data.1.length = rest := List.drop_left
      rw [Op.bytes, Instr.bytes, List.cons_append, readOp]
      simp only [hlen, htake, hdrop]
      rw [dif_pos data.2, if_neg (by simp)]
    | pushSmall n =>
      have hbyte : ∀ n : Fin 16, ¬ (0x51 + n.1).toUInt8.toNat ≤ 75 ∧
          ofByte (0x51 + n.1).toUInt8 = some (.instr (.pushSmall n)) := by
        decide
      rw [Op.bytes, Instr.bytes, List.singleton_append, readOp, dif_neg (hbyte n).1, (hbyte n).2, Option.map_some]
    | pushNegOne => rfl
    | sha256 => rfl
    | equalVerify => rfl
    | checkSig => rfl
    | checkLockTimeVerify => rfl
    | drop => rfl

theorem bytes_ne_nil (op : Op) : op.bytes ≠ [] := by
  cases op with
  | instr i => cases i <;> simp [Op.bytes, Instr.bytes]
  | opIf => simp [Op.bytes]
  | opElse => simp [Op.bytes]
  | opEndif => simp [Op.bytes]

/-- CORRECT: a script is read back from its bytes. -/
theorem parse_bytes (script : List Op) : parse (bytes script) = some script := by
  have hread : ∀ n, (bytes script).length ≤ n → readOps n (bytes script) = some script := by
    induction script with
    | nil =>
      intro n _
      cases n <;> rfl
    | cons op ops ih =>
      intro n hn
      have hcons : bytes (op :: ops) = op.bytes ++ bytes ops := List.flatMap_cons
      have hread := readOp_bytes op (bytes ops)
      have hpos := List.length_pos_iff.mpr (bytes_ne_nil op)
      rw [hcons, List.length_append] at hn
      rw [hcons]
      cases hb : op.bytes ++ bytes ops with
      | nil => simp [bytes_ne_nil] at hb
      | cons b rest =>
        rw [hb] at hread
        cases n with
        | zero => omega
        | succ n => rw [readOps, hread, Option.bind_some, ih n (by omega), Option.map_some]
  exact hread _ le_rfl

/-! ### Numbers -/

/-- A number: little-endian, the sign in the highest bit. -/
def scriptInt (n : ℤ) : Item :=
  match Rlp.minimalBe n.natAbs with
  | [] => []
  | top :: rest =>
    let sign : UInt8 := if n < 0 then 0x80 else 0
    if 0x80 ≤ top then rest.reverse ++ [top, sign] else rest.reverse ++ [top ||| sign]

theorem length_scriptInt (n : ℤ) : (scriptInt n).length ≤ 75 := by
  have hlen := Rlp.length_minimalBe n.natAbs
  rw [scriptInt]
  cases hb : Rlp.minimalBe n.natAbs with
  | nil => simp
  | cons top rest =>
    rw [hb, List.length_cons] at hlen
    simp only
    split_ifs <;> simp <;> omega

/-- A number of 63 bits takes eight bytes, with its sign. -/
theorem length_scriptInt_le {n : ℤ} (h : n.natAbs < 2 ^ 63) : (scriptInt n).length ≤ 8 := by
  have hlen := Rlp.length_minimalBe n.natAbs
  have hbe := Rlp.ofBe_minimalBe (n := n.natAbs) (by omega)
  rw [scriptInt]
  cases hb : Rlp.minimalBe n.natAbs with
  | nil => simp
  | cons top rest =>
    rw [hb, List.length_cons] at hlen
    rw [hb, Rlp.ofBe_cons] at hbe
    simp only
    by_cases htop : 0x80 ≤ top
    · have hshort : rest.length < 7 := by
        by_contra hlong
        have hseven : rest.length = 7 := by omega
        have hbit : 128 ≤ top.toNat := UInt8.le_iff_toNat_le.mp htop
        rw [hseven] at hbe
        omega
      rw [if_pos htop, List.length_append, List.length_reverse]
      exact Nat.add_le_add_right (Nat.le_of_lt_succ hshort) 2
    · rw [if_neg htop, List.length_append, List.length_reverse]
      exact hlen

/-- The number of an item. -/
def num (item : Item) : ℤ :=
  match item.reverse with
  | [] => 0
  | top :: rest =>
    let n : ℤ := Rlp.ofBe ((top &&& 0x7f) :: rest)
    if 0x80 ≤ top then -n else n

theorem num_of_reverse {item : Item} (top : UInt8) (rest : Item) (h : item.reverse = top :: rest) :
    num item = if 0x80 ≤ top then -(Rlp.ofBe ((top &&& 0x7f) :: rest) : ℤ) else Rlp.ofBe ((top &&& 0x7f) :: rest) := by
  rw [num, h]

/-- The sign bit is put on a byte that has none, and taken off again. -/
theorem sign_bit {b : UInt8} (h : ¬ 0x80 ≤ b) : b &&& 0x7f = b ∧ b ||| 0 = b ∧ 0x80 ≤ b ||| 0x80 ∧
    (b ||| 0x80) &&& 0x7f = b := by
  have hall : ∀ i : Fin 128, i.1.toUInt8 &&& 0x7f = i.1.toUInt8 ∧ i.1.toUInt8 ||| 0 = i.1.toUInt8 ∧
      (0x80 : UInt8) ≤ i.1.toUInt8 ||| 0x80 ∧ (i.1.toUInt8 ||| 0x80) &&& 0x7f = i.1.toUInt8 := by
    decide
  have hbyte := hall ⟨b.toNat, UInt8.lt_iff_toNat_lt.mp (UInt8.not_le.mp h)⟩
  rwa [show (b.toNat).toUInt8 = b from UInt8.ofNat_toNat] at hbyte

/-- ROUND TRIP: a number is read back from its item. -/
theorem num_scriptInt {n : ℤ} (h : n.natAbs < 2 ^ 64) : num (scriptInt n) = n := by
  have hbe := Rlp.ofBe_minimalBe h
  rw [scriptInt]
  cases hb : Rlp.minimalBe n.natAbs with
  | nil =>
    rw [hb] at hbe
    have hzero : n = 0 := Int.natAbs_eq_zero.mp hbe.symm
    rw [hzero]
    rfl
  | cons top rest =>
    rw [hb] at hbe
    simp only
    by_cases htop : 0x80 ≤ top
    · have hclear : ((0x80 : UInt8) &&& 0x7f) = 0 ∧ ((0 : UInt8) &&& 0x7f) = 0 := by decide
      rw [if_pos htop]
      split_ifs with hneg
      · rw [num_of_reverse 0x80 (top :: rest) (by simp), if_pos (by decide), hclear.1,
          Rlp.ofBe_cons_zero, hbe]
        omega
      · rw [num_of_reverse 0 (top :: rest) (by simp), if_neg (by decide), hclear.2,
          Rlp.ofBe_cons_zero, hbe]
        omega
    · obtain ⟨hmask, hor, hsign, hback⟩ := sign_bit htop
      rw [if_neg htop]
      split_ifs with hneg
      · rw [num_of_reverse (top ||| 0x80) rest (by simp), if_pos hsign, hback, hbe]
        omega
      · rw [num_of_reverse top rest (by simp [hor]), if_neg htop, hmask, hbe]
        omega

/-- Push a number in its shortest form. -/
def pushInt (n : ℤ) : Instr :=
  if n = -1 then .pushNegOne
  else if h : 1 ≤ n ∧ n ≤ 16 then .pushSmall ⟨(n - 1).toNat, by omega⟩
  else .push ⟨scriptInt n, length_scriptInt n⟩

/-- What an operation pushes, if it pushes. -/
def Instr.pushed : Instr → Option Item
  | .push data => some data.1
  | .pushSmall n => some [n.1.toUInt8 + 1]
  | .pushNegOne => some [0x81]
  | _ => none

/-- The number that is pushed right in front of a lock time check. -/
def lockTimeOperand : List Op → Option ℤ
  | .instr i :: .instr .checkLockTimeVerify :: _ => i.pushed.map num
  | _ :: ops => lockTimeOperand ops
  | [] => none

theorem scriptInt_small : ∀ n : Fin 16, scriptInt (n.1 + 1) = [n.1.toUInt8 + 1] := by
  decide

/-- Short form or long, the number is what is pushed. -/
theorem pushed_pushInt (n : ℤ) : (pushInt n).pushed = some (scriptInt n) := by
  rw [pushInt]
  split_ifs with hneg hsmall
  · rw [hneg]
    rfl
  · have hnum := scriptInt_small ⟨(n - 1).toNat, by omega⟩
    rw [show (((n - 1).toNat : ℕ) : ℤ) + 1 = n by omega] at hnum
    rw [Instr.pushed, hnum]
  · rfl

theorem apply_of_pushed {c : Checks} {i : Instr} {item : Item} (h : i.pushed = some item) (st : Stack) :
    i.apply c st = some (item :: st) := by
  cases i <;> cases h <;> rfl

@[simp] theorem apply_pushInt {c : Checks} {n : ℤ} {st st' : Stack} :
    (pushInt n).apply c st = some st' ↔ scriptInt n :: st = st' := by
  rw [apply_of_pushed (pushed_pushInt n), Option.some.injEq]

end Script

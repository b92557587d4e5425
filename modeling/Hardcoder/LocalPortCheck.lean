import Hardcoder.Lib.Decimal
import Hardcoder.Lib.Strtok

/-! `LocalPortCheck` (util.h): the uid of the socket at a local port, found in the text of
/proc/net/udp or /proc/net/tcp. -/

namespace Hardcoder
open Strtol Strtok
set_option autoImplicit false

namespace LocalPortCheck

def TCP_PORT : Int := 1
def UDP_PORT : Int := 2

def path (type : Int) : Option String :=
  if type = TCP_PORT then some "/proc/net/tcp"
  else if type = UDP_PORT then some "/proc/net/udp"
  else none

/-- `snprintf` of `"%X"` into eight bytes -/
def szPort (port : BitVec 32) : List UInt8 := (hex port.toNat).take 7

/-- `n` bytes at most, and none behind a line feed. -/
def readLine : Nat → List UInt8 → List UInt8 × List UInt8
  | 0, fp => ([], fp)
  | _ + 1, [] => ([], [])
  | n + 1, c :: fp =>
    if c = 10 then ([c], fp)
    else
      let (line, fp) := readLine n fp
      (c :: line, fp)

/-- The line, and what is left of the file. -/
def fgets (size : Nat) (fp : List UInt8) : Option (List UInt8 × List UInt8) :=
  if fp = [] then none else some (readLine (size - 1) fp)

variable (long : CLong)

/-- The loop over the tokens of a line. -/
def columnLoop (szPort : List UInt8) : Nat → Bool → List (List UInt8) → Option Int
  | _, _, [] => none
  | colIndex, portHitRow, token :: rest =>
    let portHitRow := portHitRow || (colIndex = 1 && szPort ∈ tokens 58 token)
    if portHitRow ∧ colIndex = 7 then some (atoi long token).toInt
    else columnLoop szPort (colIndex + 1) portHitRow rest

/-- A line as a string, which ends at its first null byte. -/
def lineUid (szPort line : List UInt8) : Option Int :=
  columnLoop long szPort 0 false (tokens 32 (line.takeWhile (· ≠ 0)))

/-- `while (fgets(...))`; `fuel` is above the length of the file. -/
def lineLoop (szPort : List UInt8) : Nat → List UInt8 → Int
  | 0, _ => -1
  | fuel + 1, fp =>
    match fgets 4096 fp with
    | none => -1
    | some (line, fp) =>
      match lineUid long szPort line with
      | some uid => uid
      | none => lineLoop szPort fuel fp

/-- `fopen` gives the contents of a file that can be opened. -/
def getUidByPort (fopen : String → Option (List UInt8)) (type : Int) (port : BitVec 32) : Int :=
  match path type with
  | none => -2
  | some path =>
    match fopen path with
    | none => -3
    | some fp => lineLoop long (szPort port) (fp.length + 1) fp

/-! ### What Linux prints -/

/-- A word with the spaces in front of it. -/
structure Column where
  pad : Nat
  word : List UInt8
  nonempty : word ≠ []
  plain : ∀ c ∈ word, c ≠ 0 ∧ c ≠ 10 ∧ c ≠ 32

theorem forall_mem_of_all {P : UInt8 → Prop} [DecidablePred P] {word : List UInt8}
    (h : (word.all fun c => P c) = true) : ∀ c ∈ word, P c :=
  fun c hc => of_decide_eq_true (List.all_eq_true.mp h c hc)

/-- Columns with a space behind each. -/
def spaced (columns : List Column) : List UInt8 :=
  columns.flatMap fun c => List.replicate c.pad 32 ++ (c.word ++ [32])

/-- `%08X:%04X` -/
def address (local_address : BitVec 32) (port : BitVec 16) : List UInt8 :=
  padded 8 local_address.toNat ++ 58 :: padded 4 port.toNat

theorem plain_of_isxdigit {c : UInt8} (h : isxdigit c = true) : c ≠ 0 ∧ c ≠ 10 ∧ c ≠ 32 ∧ c ≠ 58 := by
  refine ⟨?_, ?_, ?_, ?_⟩ <;> rintro rfl <;> exact absurd h (by decide)

theorem plain_address (local_address : BitVec 32) (port : BitVec 16) :
    ∀ c ∈ address local_address port, c ≠ 0 ∧ c ≠ 10 ∧ c ≠ 32 := by
  intro c hc
  have hxdigit (h : isxdigit c = true) : c ≠ 0 ∧ c ≠ 10 ∧ c ≠ 32 :=
    ⟨(plain_of_isxdigit h).1, (plain_of_isxdigit h).2.1, (plain_of_isxdigit h).2.2.1⟩
  rcases List.mem_append.mp hc with hc | hc
  · exact hxdigit (isxdigit_padded hc)
  · rcases List.mem_cons.mp hc with rfl | hc
    · decide
    · exact hxdigit (isxdigit_padded hc)

theorem plain_decimal (n : Nat) : ∀ c ∈ decimal n, c ≠ 0 ∧ c ≠ 10 ∧ c ≠ 32 := by
  intro c hc
  have hdigit := (numeral_decimal n).digits c hc
  refine ⟨?_, ?_, ?_⟩ <;> rintro rfl <;> exact absurd hdigit (by decide)

/-- `between` are the columns from the remote address up to `retrnsmt`, `behind` is the line behind
the uid, which is one of a user and so never 2^32 - 1. -/
structure Row where
  sl : Column
  local_address : BitVec 32
  port : BitVec 16
  between : List Column
  uidPad : Nat
  uid : Nat
  behind : List UInt8
  between_length : between.length = 5
  uid_lt : uid < 2 ^ 32 - 1
  plain : ∀ c ∈ behind, c ≠ 0 ∧ c ≠ 10

namespace Row

def addressColumn (row : Row) : Column where
  pad := 0
  word := address row.local_address row.port
  nonempty := List.append_ne_nil_of_right_ne_nil _ (List.cons_ne_nil _ _)
  plain := plain_address row.local_address row.port

def uidColumn (row : Row) : Column where
  pad := row.uidPad
  word := decimal row.uid
  nonempty := (numeral_decimal row.uid).nonempty
  plain := plain_decimal row.uid

def columns (row : Row) : List Column :=
  row.sl :: row.addressColumn :: (row.between ++ [row.uidColumn])

def line (row : Row) : List UInt8 := spaced row.columns ++ row.behind

end Row

/-- `  sl  local_address` -/
def headerColumns : List Column :=
  [⟨2, ascii "sl", by decide, forall_mem_of_all (by decide)⟩,
    ⟨1, ascii "local_address", by decide, forall_mem_of_all (by decide)⟩]

/-- `header` is the first line behind its first two words. -/
structure Table where
  header : List UInt8
  rows : List Row
  plain : ∀ c ∈ header, c ≠ 0 ∧ c ≠ 10
  header_short : (spaced headerColumns ++ header).length + 1 < 4096
  short : ∀ row ∈ rows, row.line.length + 1 < 4096

def Table.text (table : Table) : List UInt8 :=
  spaced headerColumns ++ (table.header ++ 10 :: table.rows.flatMap fun row => row.line ++ [10])

/-- The uid of the first row with the port, as an `int`, and -1 just when there is no such row. -/
structure Answers (rows : List Row) (port : Nat) (ret : Int) : Prop where
  found : ∀ row, rows.find? (fun row => row.port.toNat = port) = some row →
    ret = (BitVec.ofNat 32 row.uid).toInt
  absent : ret = -1 ↔ ∀ row ∈ rows, row.port.toNat ≠ port

/-! ### Lines -/

theorem readLine_line {n : Nat} {line : List UInt8} (hline : 10 ∉ line) (hlt : line.length < n)
    (rest : List UInt8) : readLine n (line ++ 10 :: rest) = (line ++ [10], rest) := by
  induction line generalizing n with
  | nil =>
    obtain ⟨n, rfl⟩ : ∃ k, n = k + 1 := ⟨n - 1, by simp at hlt; omega⟩
    exact if_pos rfl
  | cons c line ih =>
    rw [List.length_cons] at hlt
    obtain ⟨n, rfl⟩ : ∃ k, n = k + 1 := ⟨n - 1, by omega⟩
    have hc : c ≠ 10 := fun h => hline (h ▸ List.mem_cons_self)
    rw [List.cons_append, readLine, if_neg hc,
      ih (fun h => hline (List.mem_cons_of_mem _ h)) (by omega)]
    rfl

theorem fgets_line {line : List UInt8} (hline : 10 ∉ line) (hlt : line.length + 1 < 4096)
    (rest : List UInt8) : fgets 4096 (line ++ 10 :: rest) = some (line ++ [10], rest) := by
  have hne : line ++ 10 :: rest ≠ [] := List.append_ne_nil_of_right_ne_nil _ (List.cons_ne_nil _ _)
  rw [fgets, if_neg hne, readLine_line hline (by omega)]

theorem tokens_spaced (columns : List Column) (rest : List UInt8) :
    tokens 32 (spaced columns ++ rest) = columns.map (·.word) ++ tokens 32 rest := by
  induction columns with
  | nil => rfl
  | cons c columns ih =>
    have hspace : (32 : UInt8) ∉ c.word := fun h => (c.plain 32 h).2.2 rfl
    have hcons : spaced (c :: columns) ++ rest =
        List.replicate c.pad 32 ++ (c.word ++ 32 :: (spaced columns ++ rest)) := by
      simp [spaced]
    rw [hcons, tokens_word c.pad c.nonempty hspace, ih]
    rfl

theorem plain_spaced (columns : List Column) : ∀ c ∈ spaced columns, c ≠ 0 ∧ c ≠ 10 := by
  intro c hc
  obtain ⟨column, -, hc⟩ := List.mem_flatMap.mp hc
  rcases List.mem_append.mp hc with hc | hc
  · rw [List.eq_of_mem_replicate hc]
    decide
  rcases List.mem_append.mp hc with hc | hc
  · exact ⟨(column.plain c hc).1, (column.plain c hc).2.1⟩
  · rw [List.mem_singleton.mp hc]
    decide

section Columns
variable {long} {szPort : List UInt8}

theorem columnLoop_no_hit {colIndex : Nat} (h : 2 ≤ colIndex) (tokens : List (List UInt8)) :
    columnLoop long szPort colIndex false tokens = none := by
  induction tokens generalizing colIndex with
  | nil => rfl
  | cons token tokens ih =>
    have hne : colIndex ≠ 1 := by omega
    have hstep : columnLoop long szPort colIndex false (token :: tokens) =
        columnLoop long szPort (colIndex + 1) false tokens := by
      simp [columnLoop, hne]
    rw [hstep]
    exact ih (by omega)

theorem columnLoop_hit {colIndex : Nat} {before : List (List UInt8)} (h : colIndex + before.length = 7)
    (token : List UInt8) (rest : List (List UInt8)) :
    columnLoop long szPort colIndex true (before ++ token :: rest) = some (atoi long token).toInt := by
  induction before generalizing colIndex with
  | nil =>
    have h7 : colIndex = 7 := h
    simp [columnLoop, h7]
  | cons w before ih =>
    rw [List.length_cons] at h
    have hne : colIndex ≠ 7 := by omega
    have hstep : columnLoop long szPort colIndex true (w :: before ++ token :: rest) =
        columnLoop long szPort (colIndex + 1) true (before ++ token :: rest) := by
      simp [columnLoop, hne]
    rw [hstep]
    exact ih (by omega)

/-- The second token decides whether the line has the port. -/
theorem columnLoop_cons (first second : List UInt8) (rest : List (List UInt8)) :
    columnLoop long szPort 0 false (first :: second :: rest) =
      columnLoop long szPort 2 (szPort ∈ tokens 58 second) rest := by
  simp [columnLoop]

end Columns

theorem lineUid_line {long : CLong} {szPort : List UInt8} (first second : Column) (columns : List Column)
    {behind : List UInt8} (hplain : ∀ c ∈ behind, c ≠ 0 ∧ c ≠ 10) :
    lineUid long szPort (spaced (first :: second :: columns) ++ behind ++ [10]) =
      columnLoop long szPort 2 (szPort ∈ tokens 58 second.word)
        (columns.map (·.word) ++ tokens 32 (behind ++ [10])) := by
  have hall : ∀ c ∈ spaced (first :: second :: columns) ++ behind ++ [10], decide (c ≠ 0) = true := by
    intro c hc
    rw [List.append_assoc] at hc
    rcases List.mem_append.mp hc with hc | hc
    · exact decide_eq_true (plain_spaced _ c hc).1
    rcases List.mem_append.mp hc with hc | hc
    · exact decide_eq_true (hplain c hc).1
    · rw [List.mem_singleton.mp hc]
      decide
  rw [lineUid, List.takeWhile_eq_self_iff.mpr hall, List.append_assoc, tokens_spaced]
  exact columnLoop_cons first.word second.word _

theorem lineLoop_line {long : CLong} {szPort line : List UInt8} (hline : 10 ∉ line)
    (hlt : line.length + 1 < 4096) (fuel : Nat) (rest : List UInt8) :
    lineLoop long szPort (fuel + 1) (line ++ 10 :: rest) =
      (lineUid long szPort (line ++ [10])).getD (lineLoop long szPort fuel rest) := by
  rw [lineLoop, fgets_line hline hlt]
  dsimp only
  cases lineUid long szPort (line ++ [10]) with
  | none => rfl
  | some uid => rfl

theorem newline_not_mem {columns : List Column} {behind : List UInt8}
    (hplain : ∀ c ∈ behind, c ≠ 0 ∧ c ≠ 10) : (10 : UInt8) ∉ spaced columns ++ behind := by
  intro h
  rcases List.mem_append.mp h with h | h
  · exact (plain_spaced columns 10 h).2 rfl
  · exact (hplain 10 h).2 rfl

/-! ### Rows -/

theorem colon_not_mem (width n : Nat) : (58 : UInt8) ∉ padded width n :=
  fun h => (plain_of_isxdigit (isxdigit_padded h)).2.2.2 rfl

theorem padded_ne_nil (width n : Nat) : padded width n ≠ [] := by
  rw [padded, hex]
  refine List.append_ne_nil_of_right_ne_nil _ fun h => ?_
  exact digitsOf_ne_nil (Nat.lt_succ_self n) (List.map_eq_nil_iff.mp h)

theorem tokens_address (local_address : BitVec 32) (port : BitVec 16) :
    tokens 58 (address local_address port) = [padded 8 local_address.toNat, padded 4 port.toNat] := by
  have hword := tokens_word 0 (padded_ne_nil 8 local_address.toNat)
    (colon_not_mem 8 local_address.toNat) (padded 4 port.toNat)
  rw [List.replicate_zero, List.nil_append] at hword
  rw [address, hword, tokens_last (padded_ne_nil _ _) (colon_not_mem _ _)]

section Port
variable {port : BitVec 32} (hpos : 1 ≤ port.toNat) (hle : port.toNat ≤ 65535)
include hpos hle

theorem szPort_eq : (szPort port) = hex port.toNat ∧ (hex port.toNat).length ≤ 4 := by
  have hlen : (hex port.toNat).length ≤ 3 + 1 := length_hex_le.mpr (by omega)
  exact ⟨List.take_of_length_le (by omega), hlen⟩

/-- A number below 0x1000 is printed with fewer digits than the column has. -/
theorem mem_tokens_address (local_address : BitVec 32) (localPort : BitVec 16) :
    szPort port ∈ tokens 58 (address local_address localPort) ↔
      localPort.toNat = port.toNat ∧ 4096 ≤ port.toNat := by
  obtain ⟨hsz, hlen⟩ := szPort_eq hpos hle
  have hne : port.toNat ≠ 0 := by omega
  have hlong : hex port.toNat ≠ padded 8 local_address.toNat := by
    intro h
    have hpadded := length_padded 8 local_address.toNat
    rw [← h] at hpadded
    omega
  have hwide : 4 ≤ (hex port.toNat).length ↔ 4096 ≤ port.toNat := by
    have hthree := @length_hex_le port.toNat 2
    omega
  rw [tokens_address, hsz, List.mem_cons, or_iff_right hlong, List.mem_singleton, hex_eq_padded_iff hne]
  constructor
  · rintro ⟨hsame, hle4⟩
    rw [← hsame] at hle4
    exact ⟨hsame.symm, hwide.mp hle4⟩
  · rintro ⟨hsame, hge⟩
    rw [hsame]
    exact ⟨rfl, hwide.mpr hge⟩

variable {long : CLong}

theorem lineUid_header {header : List UInt8} (hplain : ∀ c ∈ header, c ≠ 0 ∧ c ≠ 10) :
    lineUid long (szPort port) (spaced headerColumns ++ header ++ [10]) = none := by
  obtain ⟨hsz, hlen⟩ := szPort_eq hpos hle
  have hword : tokens 58 (ascii "local_address") = [ascii "local_address"] :=
    tokens_last (by decide) (by decide)
  have hmiss : szPort port ∉ tokens 58 (ascii "local_address") := by
    rw [hword, hsz, List.mem_singleton]
    intro h
    rw [h] at hlen
    exact absurd hlen (by decide)
  rw [headerColumns, lineUid_line _ _ _ hplain, decide_eq_false hmiss]
  exact columnLoop_no_hit (Nat.le_refl 2) _

theorem lineUid_row (row : Row) :
    lineUid long (szPort port) (row.line ++ [10]) =
      if row.port.toNat = port.toNat ∧ 4096 ≤ port.toNat then some (atoi long (decimal row.uid)).toInt
      else none := by
  rw [Row.line, Row.columns, lineUid_line _ _ _ row.plain]
  change columnLoop long (szPort port) 2
    (szPort port ∈ tokens 58 (address row.local_address row.port)) _ = _
  split
  · rename_i hhit
    rw [decide_eq_true ((mem_tokens_address hpos hle _ _).mpr hhit), List.map_append, List.append_assoc]
    refine columnLoop_hit ?_ _ _
    rw [List.length_map, row.between_length]
  · rename_i hmiss
    rw [decide_eq_false (fun h => hmiss ((mem_tokens_address hpos hle _ _).mp h))]
    exact columnLoop_no_hit (Nat.le_refl 2) _

/-- The rows, one line each. -/
theorem lineLoop_rows {rows : List Row} (hshort : ∀ row ∈ rows, row.line.length + 1 < 4096) {fuel : Nat}
    (hfuel : (rows.flatMap fun row => row.line ++ [10]).length < fuel) :
    lineLoop long (szPort port) fuel (rows.flatMap fun row => row.line ++ [10]) =
      ((rows.find? fun row => row.port.toNat = port.toNat ∧ 4096 ≤ port.toNat).map
        fun row => (atoi long (decimal row.uid)).toInt).getD (-1) := by
  induction rows generalizing fuel with
  | nil =>
    obtain ⟨fuel, rfl⟩ : ∃ k, fuel = k + 1 := ⟨fuel - 1, by simp at hfuel; omega⟩
    rfl
  | cons row rows ih =>
    obtain ⟨hrow, hrows⟩ := List.forall_mem_cons.mp hshort
    obtain ⟨fuel, rfl⟩ : ∃ k, fuel = k + 1 := ⟨fuel - 1, by omega⟩
    have hrest : (rows.flatMap fun row => row.line ++ [10]).length < fuel := by
      simp only [List.flatMap_cons, List.length_append, List.length_singleton] at hfuel
      omega
    have htext : ((row :: rows).flatMap fun row => row.line ++ [10]) =
        row.line ++ 10 :: rows.flatMap fun row => row.line ++ [10] := by
      rw [List.flatMap_cons, List.append_assoc, List.singleton_append]
    have hnewline : 10 ∉ row.line := newline_not_mem row.plain
    rw [htext, lineLoop_line hnewline hrow, lineUid_row hpos hle, ih hrows hrest]
    by_cases hhit : row.port.toNat = port.toNat ∧ 4096 ≤ port.toNat
    · rw [if_pos hhit, List.find?_cons, decide_eq_true hhit]
      rfl
    · rw [if_neg hhit, List.find?_cons, decide_eq_false hhit]
      rfl

/-- The first row with the port, if the port has four digits. -/
theorem getUidByPort_eq {fopen : String → Option (List UInt8)} {type : Int} {name : String}
    (hpath : path type = some name) {table : Table} (hopen : fopen name = some table.text) :
    getUidByPort long fopen type port =
      ((table.rows.find? fun row => row.port.toNat = port.toNat ∧ 4096 ≤ port.toNat).map
        fun row => (atoi long (decimal row.uid)).toInt).getD (-1) := by
  have htext : table.text = (spaced headerColumns ++ table.header) ++
      10 :: table.rows.flatMap fun row => row.line ++ [10] := by
    rw [Table.text, List.append_assoc]
  have hlen : (table.rows.flatMap fun row => row.line ++ [10]).length < table.text.length := by
    rw [htext, List.length_append, List.length_cons]
    omega
  rw [getUidByPort, hpath]
  dsimp only
  rw [hopen]
  dsimp only
  rw [← lineLoop_rows hpos hle table.short hlen]
  conv_lhs => rw [htext]
  rw [lineLoop_line (newline_not_mem table.plain) table.header_short,
    lineUid_header hpos hle table.plain]
  rfl

end Port

/-! ### The uid -/

/-- A uid from 2^31 on is kept only where `long` can hold it. -/
theorem atoi_uid_iff (long : CLong) {uid : Nat} (huid : uid < 2 ^ 32 - 1) :
    (atoi long (decimal uid)).toInt = (BitVec.ofNat 32 uid).toInt ↔ long = .lp64 ∨ uid < 2 ^ 31 := by
  have hnumber : number (decimal uid) = uid := by
    rw [number_numeral (numeral_decimal uid), value_decimal]
  have hsame (h : strtol long (decimal uid) = uid) :
      (atoi long (decimal uid)).toInt = (BitVec.ofNat 32 uid).toInt := by
    rw [atoi, h, BitVec.ofInt_natCast]
  cases long with
  | lp64 =>
    refine iff_of_true (hsame ?_) (.inl rfl)
    rw [strtol, hnumber, CLong.bound, if_neg (by omega), if_neg (by omega)]
  | ilp32 =>
    by_cases hsmall : uid < 2 ^ 31
    · refine iff_of_true (hsame ?_) (.inr hsmall)
      rw [strtol, hnumber, CLong.bound, if_neg (by omega), if_neg (by omega)]
    · have hshort : ¬ (CLong.ilp32 = .lp64 ∨ uid < 2 ^ 31) := not_or.mpr ⟨CLong.noConfusion, hsmall⟩
      refine iff_of_false (fun h => ?_) hshort
      have hstrtol : strtol .ilp32 (decimal uid) = 2 ^ 31 - 1 := by
        rw [strtol, hnumber, CLong.bound, if_neg (by omega), if_pos (by omega)]
      have hnat := congrArg BitVec.toNat (BitVec.toInt_inj.mp h)
      rw [atoi, hstrtol, BitVec.toNat_ofNat] at hnat
      change 2147483647 = uid % 2 ^ 32 at hnat
      omega

/-- No user has the number that reads as -1. -/
theorem uid_ne_neg_one {uid : Nat} (huid : uid < 2 ^ 32 - 1) : (BitVec.ofNat 32 uid).toInt ≠ -1 := by
  intro h
  have hone : -1 = (-1 : BitVec 32).toInt := by decide
  have hnat := congrArg BitVec.toNat (BitVec.toInt_inj.mp (h.trans hone))
  rw [BitVec.toNat_ofNat] at hnat
  change uid % 2 ^ 32 = 4294967295 at hnat
  omega

theorem answers_none {rows : List Row} {port : Nat}
    (h : rows.find? (fun row => row.port.toNat = port) = none) (ret : Int) :
    Answers rows port ret ↔ ret = -1 := by
  have hno : ∀ row ∈ rows, row.port.toNat ≠ port := by simpa using h
  constructor
  · exact fun hanswers => hanswers.absent.mpr hno
  · intro hret
    refine ⟨fun row hrow => ?_, iff_of_true hret hno⟩
    rw [h] at hrow
    cases hrow

theorem answers_some {rows : List Row} {port : Nat} {row : Row}
    (h : rows.find? (fun row => row.port.toNat = port) = some row) (ret : Int) :
    Answers rows port ret ↔ ret = (BitVec.ofNat 32 row.uid).toInt := by
  have hport : row.port.toNat = port := by simpa using List.find?_some h
  constructor
  · exact fun hanswers => hanswers.found row h
  · intro hret
    have hmem := List.mem_of_find?_eq_some h
    refine ⟨fun row' hrow' => ?_, iff_of_false ?_ fun hall => hall row hmem hport⟩
    · rw [h] at hrow'
      rwa [← Option.some.inj hrow']
    · rw [hret]
      exact uid_ne_neg_one row.uid_lt

theorem answers_iff (long : CLong) {fopen : String → Option (List UInt8)} {type : Int} {name : String}
    (hpath : path type = some name) (table : Table) (hopen : fopen name = some table.text)
    (port : BitVec 32) (hpos : 1 ≤ port.toNat) (hle : port.toNat ≤ 65535) :
    Answers table.rows port.toNat (getUidByPort long fopen type port) ↔
      ∀ row, table.rows.find? (fun row => row.port.toNat = port.toNat) = some row →
        4096 ≤ port.toNat ∧ (long = .lp64 ∨ row.uid < 2 ^ 31) := by
  rw [getUidByPort_eq hpos hle hpath hopen]
  have hshort (h : ¬ 4096 ≤ port.toNat) :
      table.rows.find? (fun row => row.port.toNat = port.toNat ∧ 4096 ≤ port.toNat) = none := by
    simp [h]
  have hwide (h : 4096 ≤ port.toNat) : (fun row : Row => decide (row.port.toNat = port.toNat ∧
      4096 ≤ port.toNat)) = fun row => decide (row.port.toNat = port.toNat) := by
    simp [h]
  cases hfind : table.rows.find? (fun row => row.port.toNat = port.toNat) with
  | none =>
    rw [answers_none hfind]
    refine iff_of_true ?_ fun row hrow => nomatch hrow
    by_cases hge : 4096 ≤ port.toNat
    · rw [hwide hge, hfind]
      rfl
    · rw [hshort hge]
      rfl
  | some row =>
    rw [answers_some hfind]
    simp only [Option.some.injEq, forall_eq']
    by_cases hge : 4096 ≤ port.toNat
    · rw [hwide hge, hfind, and_iff_right hge]
      exact atoi_uid_iff long row.uid_lt
    · rw [hshort hge]
      exact iff_of_false (uid_ne_neg_one row.uid_lt).symm fun h => hge h.1

/-- A socket at the port. -/
def exampleRow (port : BitVec 16) (uid : Nat) (h : uid < 2 ^ 32 - 1) : Row where
  sl := ⟨2, ascii "0:", by decide, forall_mem_of_all (by decide)⟩
  local_address := 0x0100007F
  port := port
  between := List.replicate 5 ⟨0, ascii "0", by decide, forall_mem_of_all (by decide)⟩
  uidPad := 1
  uid := uid
  behind := ascii "0 17"
  between_length := rfl
  uid_lt := h
  plain := forall_mem_of_all (by decide)

def exampleTable (rows : List Row) (h : ∀ row ∈ rows, row.line.length + 1 < 4096) : Table where
  header := ascii "rem_address"
  rows := rows
  plain := forall_mem_of_all (by decide)
  header_short := by decide
  short := h

def dnsTable : Table := exampleTable [exampleRow 53 1000 (by decide)] (by decide)

/-- Port 53 is printed as 0035 and looked for as 35. -/
theorem not_answers : ¬ ∀ (table : Table) fopen, fopen "/proc/net/udp" = some table.text →
    Answers table.rows 53 (getUidByPort .lp64 fopen UDP_PORT 53) := by
  intro h
  have hanswers := h dnsTable (fun _ => some dnsTable.text) rfl
  exact absurd (hanswers.found (exampleRow 53 1000 (by decide)) rfl) (by decide)

/-- Two sockets at the port, behind one at another. -/
def threeRows : Table := exampleTable [exampleRow 8081 1000 (by decide),
  exampleRow 8080 1001 (by decide), exampleRow 8080 1002 (by decide)] (by decide)

theorem answers_iff_three : getUidByPort .lp64 (fun _ => some threeRows.text) UDP_PORT 8080 = 1001 := by
  have hanswers : Answers threeRows.rows 8080
      (getUidByPort .lp64 (fun _ => some threeRows.text) UDP_PORT 8080) :=
    (answers_iff .lp64 rfl threeRows rfl 8080 (by decide) (by decide)).mpr
      fun row _ => ⟨by decide, .inl rfl⟩
  exact hanswers.found (exampleRow 8080 1001 (by decide)) rfl

end LocalPortCheck

end Hardcoder

import KeycapRoot.Lib.Rows
import KeycapRoot.Utility.HexString

/-!
# Hex dumps

`dump_as_hex` collects sixteen bytes in a buffer and writes them as a line when the next byte comes,
and what is left in the buffer at the end. So there is a line for each row of sixteen bytes
(`run_eq`), its hexadecimal digits take 50 characters however many bytes it has (`length_area`), and
all of them are the bytes in order (`dumpAsHex_lines`).
-/

namespace KeycapRoot.Utility

open ByteElement

/-- `isprint` in the "C" locale. -/
def isprint (c : UInt8) : Bool := 32 ≤ c && c ≤ 126

namespace HexDump

/-- The variables of the function. -/
structure Dump where
  buffer : Vector UInt8 16 := Vector.replicate 16 0
  address : Int := 0
  i : Nat := 0
  destination : OutputStream

def printAddress (indent address : Int) (destination : OutputStream) : OutputStream :=
  let destination := (List.range indent.toNat).foldl (fun os _ => os.insert [' ']) destination
  (destination.setw 8).insertInt address

/-- Nothing where it indexes outside the buffer. -/
def printHex (buffer : Vector UInt8 16) (n : Nat) (destination : OutputStream) :
    Option OutputStream := do
  let destination ← (List.range n).foldlM
    (fun (os : OutputStream) i => do
      let os := if i % 8 = 0 then os.insert [' '] else os
      let b ← buffer[i]?
      return ((os.setw 2).insertUnsigned b.toUInt32).insert [' '])
    destination
  return (List.range (16 - n)).foldl
    (fun os i =>
      let os := if 16 - n - i = 8 then os.insert [' '] else os
      os.insert [' ', ' ', ' '])
    destination

/-- A byte among the characters of its line. -/
def printed (b : UInt8) : Char := if isprint b then Char.ofNat b.toNat else '.'

def printChars (buffer : Vector UInt8 16) (n : Nat) (destination : OutputStream) :
    Option OutputStream :=
  (List.range n).foldlM
    (fun os i => do
      let b ← buffer[i]?
      return os.insert [printed b])
    destination

/-- The line of the first `n` bytes in the buffer. -/
def printLine (indent : Int) (n : Nat) (s : Dump) : Option OutputStream := do
  let destination := printAddress indent s.address s.destination
  let destination ← printHex s.buffer n destination
  printChars s.buffer n destination

/-- A sum in `int`, which must not overflow. -/
def addInt (a b : Int) : Option Int :=
  if -2 ^ 31 ≤ a + b ∧ a + b < 2 ^ 31 then some (a + b) else none

/-- A full buffer is written. -/
def flush (indent : Int) (s : Dump) : Option Dump := do
  let destination ← printLine indent 16 s
  let address ← addInt s.address 16
  return { s with address, i := 0, destination := destination.insert ['\n'] }

/-- `buffer[i] = *begin`, and `i` goes on. -/
def store (b : UInt8) (s : Dump) : Option Dump :=
  if h : s.i < 16 then some { s with buffer := s.buffer.set s.i b h, i := s.i + 1 } else none

section Loop

variable {α : Type} [ByteElement α]

/-- The body of the loop. -/
def step (indent : Int) (s : Dump) (e : α) : Option Dump := do
  let s ← if 16 ≤ s.i then flush indent s else some s
  store (toUnsignedChar e) s

/-- What is behind the loop. -/
def finish (indent : Int) (s : Dump) : Option OutputStream := do
  let destination ← if s.i ≠ 0 then
      (printLine indent s.i s).map fun destination => destination.insert ['\n']
    else some s.destination
  return { destination with hex := false }

end Loop

end HexDump

open HexDump in
/-- `dump_as_hex(begin, end, destination, indent)` of the elements. -/
def dumpAsHex {α : Type} [ByteElement α] (elements : List α) (destination : OutputStream)
    (indent : Int := 0) : Option OutputStream := do
  let s ← elements.foldlM (step indent)
    { destination := { destination with hex := true, fill := '0' } }
  finish indent s

namespace HexDump

/-! ## Lines -/

/-- The 50 characters of the bytes in hexadecimal digits. -/
def area (uppercase : Bool) (row : List UInt8) : List Char :=
  row.zipIdx.flatMap (fun (b, i) =>
      (if i % 8 = 0 then [' '] else []) ++ Hexadecimal.fixed uppercase 2 b.toNat ++ [' ']) ++
    (List.range (16 - row.length)).flatMap fun i =>
      (if 16 - row.length - i = 8 then [' '] else []) ++ [' ', ' ', ' ']

/-- The line of a row. -/
def line (uppercase : Bool) (indent address : Nat) (row : List UInt8) : List Char :=
  List.replicate indent ' ' ++ Hexadecimal.fixed uppercase 8 address ++ area uppercase row ++
    row.map printed

/-- The lines of rows that begin at an address. -/
def lines (uppercase : Bool) (indent : Nat) : Nat → List (List UInt8) → List (List Char)
  | _, [] => []
  | address, row :: rows =>
    line uppercase indent address row :: lines uppercase indent (address + 16) rows

/-! ## Printing -/

/-- A loop over indices of the buffer is a loop over its elements with their places. -/
theorem foldlM_buffer {σ : Type} (f : σ → Nat → UInt8 → σ) (buffer : Vector UInt8 16) {n : Nat}
    (hn : n ≤ 16) (s : σ) :
    (List.range n).foldlM (fun s i => do let b ← buffer[i]?; return f s i b) s =
      some ((buffer.toList.take n).zipIdx.foldl (fun s (b, i) => f s i b) s) := by
  induction n with
  | zero => rfl
  | succ n ih =>
    have hlt : n < buffer.toList.length := by
      rw [Vector.length_toList]
      exact hn
    have htake : (buffer.toList.take n).length = n := List.length_take_of_le (Nat.le_of_lt hlt)
    have hget : buffer[n]? = some (buffer.toList[n]) := by
      rw [← Vector.getElem?_toList, List.getElem?_eq_getElem hlt]
    rw [List.range_succ, List.foldlM_append, ih (by omega), List.take_succ_eq_append_getElem hlt,
      List.zipIdx_append, List.foldl_append, htake]
    simp [hget]

section Printing

variable {uppercase : Bool} (text : List Char)

open OutputStream

theorem printAddress_eq (indent : Int) {address : Nat} (h : address < 2 ^ 31) :
    printAddress indent address (hexZeros text uppercase) =
      hexZeros (text ++ List.replicate indent.toNat ' ' ++ Hexadecimal.fixed uppercase 8 address)
        uppercase := by
  have hspaces := hexZeros_foldl text uppercase (List.range indent.toNat)
    (fun os _ => os.insert [' ']) (fun _ => [' ']) fun text _ _ => hexZeros_insert text uppercase _
  have hreplicate : (List.range indent.toNat).flatMap (fun _ => [' ']) =
      List.replicate indent.toNat ' ' := by
    rw [← List.map_eq_flatMap, List.map_const', List.length_range]
  unfold printAddress
  rw [hspaces, hreplicate]
  exact hexZeros_insertInt _ uppercase 8 (by omega)

theorem printHex_eq {buffer : Vector UInt8 16} {n : Nat} (hn : n ≤ 16) :
    printHex buffer n (hexZeros text uppercase) =
      some (hexZeros (text ++ area uppercase (buffer.toList.take n)) uppercase) := by
  have hlength : (buffer.toList.take n).length = n := by
    rw [List.length_take, Vector.length_toList]
    omega
  have hdigits := foldlM_buffer (fun (os : OutputStream) i (b : UInt8) =>
      ((((if i % 8 = 0 then os.insert [' '] else os).setw 2).insertUnsigned b.toUInt32).insert
        [' '])) buffer hn (hexZeros text uppercase)
  rw [hexZeros_foldl text uppercase _ _ (fun (b, i) =>
    (if i % 8 = 0 then [' '] else []) ++ Hexadecimal.fixed uppercase 2 b.toNat ++ [' '])] at hdigits
  · unfold printHex
    rw [Option.bind_eq_bind]
    refine (congrArg (Option.bind · _) hdigits).trans ?_
    rw [Option.bind_some, hexZeros_foldl _ uppercase _ _ (fun i =>
      (if 16 - n - i = 8 then [' '] else []) ++ [' ', ' ', ' '])]
    · rw [area, hlength, List.append_assoc]
      rfl
    · intro text i _
      split <;> simp
  · rintro text ⟨b, i⟩ _
    simp only
    split <;> simp

theorem printChars_eq {buffer : Vector UInt8 16} {n : Nat} (hn : n ≤ 16) :
    printChars buffer n (hexZeros text uppercase) =
      some (hexZeros (text ++ (buffer.toList.take n).map printed) uppercase) := by
  have hchars := foldlM_buffer (fun (os : OutputStream) _ (b : UInt8) => os.insert [printed b])
    buffer hn (hexZeros text uppercase)
  have hmap : (buffer.toList.take n).zipIdx.flatMap (fun (b, _) => [printed b]) =
      (buffer.toList.take n).map printed := by
    conv_rhs =>
      rw [← List.zipIdx_map_fst 0 (buffer.toList.take n), List.map_map, List.map_eq_flatMap]
    rfl
  rw [hexZeros_foldl text uppercase _ _ (fun (b, _) => [printed b]), hmap] at hchars
  · exact hchars
  · rintro text ⟨b, i⟩ _
    exact hexZeros_insert text uppercase _

theorem printLine_eq (indent : Int) {s : Dump} {n : Nat} (hn : n ≤ 16) {address : Nat}
    (haddress : s.address = address) (hmax : address < 2 ^ 31)
    (hdestination : s.destination = hexZeros text uppercase) :
    printLine indent n s =
      some (hexZeros (text ++ line uppercase indent.toNat address (s.buffer.toList.take n))
        uppercase) := by
  unfold printLine
  simp only [haddress, hdestination, printAddress_eq text indent hmax, printHex_eq _ hn, bind,
    Option.bind_some, printChars_eq _ hn, line, List.append_assoc]

end Printing

/-! ## The loop -/

/-- The bytes that wait in the buffer, and what is written already. -/
structure Holds (uppercase : Bool) (text : List Char) (address : Nat) (pending : List UInt8)
    (s : Dump) : Prop where
  i_eq : s.i = pending.length
  i_le : s.i ≤ 16
  pending_eq : s.buffer.toList.take s.i = pending
  address_eq : s.address = address
  destination_eq : s.destination = OutputStream.hexZeros text uppercase

section Run

variable {uppercase : Bool} {text : List Char} {address : Nat} {pending : List UInt8} {s : Dump}

theorem Holds.store (h : Holds uppercase text address pending s) (hi : s.i < 16) (b : UInt8) :
    ∃ t, store b s = some t ∧ Holds uppercase text address (pending ++ [b]) t := by
  refine ⟨_, dif_pos hi, ?_, hi, ?_, h.address_eq, h.destination_eq⟩
  · rw [List.length_append, ← h.i_eq]
    rfl
  · have hlt : s.i < s.buffer.toList.length := by
      rw [Vector.length_toList]
      exact hi
    change (s.buffer.set s.i b hi).toList.take (s.i + 1) = pending ++ [b]
    rw [Vector.toList_set, List.take_succ_eq_append_getElem (by rwa [List.length_set]),
      List.take_set_of_le (Nat.le_refl _), List.getElem_set_self, h.pending_eq]

theorem Holds.flush (h : Holds uppercase text address pending s) (indent : Int) (hi : 16 ≤ s.i)
    (hmax : address + 16 < 2 ^ 31) :
    ∃ t, flush indent s = some t ∧
      Holds uppercase (text ++ line uppercase indent.toNat address pending ++ ['\n']) (address + 16)
        [] t := by
  have hfull : s.i = 16 := Nat.le_antisymm h.i_le hi
  have hline := printLine_eq text indent (Nat.le_refl 16) h.address_eq (by omega) h.destination_eq
  have hadd : addInt address 16 = some ((address + 16 : Nat) : Int) := by
    rw [addInt, if_pos ⟨by omega, by omega⟩]
    rfl
  have hpending : s.buffer.toList.take 16 = pending := by
    rw [← h.pending_eq, hfull]
  unfold HexDump.flush
  rw [hline, h.address_eq, hpending]
  simp only [bind, Option.bind_some, hadd]
  exact ⟨_, rfl, rfl, Nat.zero_le _, rfl, rfl, OutputStream.hexZeros_insert _ _ _⟩

theorem Holds.finish (h : Holds uppercase text address pending s) (indent : Int)
    (hmax : address < 2 ^ 31) :
    ∃ t, finish indent s = some t ∧
      t.text = text ++
        (lines uppercase indent.toNat address (Rows.rows 16 pending)).flatMap (· ++ ['\n']) := by
  unfold HexDump.finish
  by_cases hnil : pending = []
  · have hi : ¬ s.i ≠ 0 := by
      rw [h.i_eq, hnil]
      exact fun hne => hne rfl
    rw [if_neg hi, h.destination_eq, hnil, Rows.rows_nil]
    exact ⟨_, rfl, (List.append_nil text).symm⟩
  · have hi : s.i ≠ 0 := by
      rw [h.i_eq]
      exact mt List.length_eq_zero_iff.1 hnil
    have hshort : pending.length ≤ 16 := h.i_eq ▸ h.i_le
    rw [if_pos hi, printLine_eq text indent h.i_le h.address_eq hmax h.destination_eq,
      h.pending_eq, Rows.rows_of_le hnil hshort, Option.map_some, OutputStream.hexZeros_insert]
    refine ⟨_, rfl, ?_⟩
    simp [lines]

/-- From a state on, the bytes that wait and those that come are written in rows. -/
theorem run_eq {α : Type} [ByteElement α] (indent : Int) (elements : List α)
    (h : Holds uppercase text address pending s)
    (hmax : address + pending.length + elements.length < 2 ^ 31) :
    ∃ t u, elements.foldlM (step indent) s = some t ∧ finish indent t = some u ∧
      u.text = text ++ (lines uppercase indent.toNat address
        (Rows.rows 16 (pending ++ elements.map toUnsignedChar))).flatMap (· ++ ['\n']) := by
  induction elements generalizing s pending text address with
  | nil =>
    obtain ⟨u, hu, htext⟩ := h.finish indent (by omega)
    refine ⟨s, u, rfl, hu, ?_⟩
    rw [List.map_nil, List.append_nil, htext]
  | cons e elements ih =>
    rw [List.length_cons] at hmax
    rw [List.foldlM_cons, List.map_cons]
    by_cases hi : 16 ≤ s.i
    · -- the buffer is full: its row is written before the byte is stored
      have hfull : pending.length = 16 := h.i_eq ▸ Nat.le_antisymm h.i_le hi
      obtain ⟨s', hflush, h'⟩ := h.flush indent hi (by omega)
      have hempty : s'.i < 16 := by
        rw [h'.i_eq]
        decide
      obtain ⟨s'', hstore, h''⟩ := h'.store hempty (toUnsignedChar e)
      have hstep : step indent s e = some s'' := by
        unfold step
        rw [if_pos hi, hflush]
        exact hstore
      obtain ⟨t, u, ht, hu, htext⟩ := ih h'' (by simp; omega)
      refine ⟨t, u, by rw [hstep]; exact ht, hu, ?_⟩
      rw [htext, Rows.rows_append (by decide) hfull, lines, List.flatMap_cons]
      simp
    · obtain ⟨s', hstore, h'⟩ := h.store (Nat.lt_of_not_le hi) (toUnsignedChar e)
      have hstep : step indent s e = some s' := by
        unfold step
        rw [if_neg hi]
        exact hstore
      obtain ⟨t, u, ht, hu, htext⟩ := ih h' (by simp; omega)
      refine ⟨t, u, by rw [hstep]; exact ht, hu, ?_⟩
      rw [htext, List.append_assoc, List.singleton_append]

end Run

/-! ## The hex area -/

theorem length_zipIdx_area (uppercase : Bool) (row : List UInt8) (j : Nat) :
    ((row.zipIdx j).flatMap fun (b, i) => (if i % 8 = 0 then [' '] else []) ++
        Hexadecimal.fixed uppercase 2 b.toNat ++ [' ']).length =
      3 * row.length + ((j + row.length + 7) / 8 - (j + 7) / 8) := by
  induction row generalizing j with
  | nil => simp
  | cons b row ih =>
    have htwo :=
      (Hexadecimal.length_fixed_eq_iff uppercase (by decide : 0 < 2) b.toNat).2 b.toNat_lt
    have hgap : (if j % 8 = 0 then [' '] else []).length = if j % 8 = 0 then 1 else 0 := by
      split <;> rfl
    rw [List.zipIdx_cons, List.flatMap_cons, List.length_append, ih]
    simp only [List.length_append, htwo, hgap, List.length_cons, List.length_nil]
    split <;> omega

theorem length_padding : ∀ m < 17,
    ((List.range m).flatMap fun i =>
        (if m - i = 8 then [' '] else []) ++ [' ', ' ', ' ']).length =
      3 * m + if 8 ≤ m then 1 else 0 := by
  decide

/-- Whatever the row is, the area has the same width. -/
theorem length_area (uppercase : Bool) {row : List UInt8} (hne : row ≠ [])
    (hrow : row.length ≤ 16) : (area uppercase row).length = 50 := by
  have hpos := List.length_pos_iff.2 hne
  rw [area, List.length_append, length_zipIdx_area, length_padding _ (by omega)]
  split <;> omega

theorem alphabet_ne_blank (uppercase : Bool) :
    ∀ c ∈ Hexadecimal.alphabet uppercase, c ≠ ' ' ∧ c ≠ '\n' := by
  have hall : (Hexadecimal.alphabet uppercase).all (fun c => c != ' ' && c != '\n') = true := by
    cases uppercase <;> decide
  intro c hc
  simpa using List.all_eq_true.1 hall c hc

/-- Without its spaces the area is the digits of the bytes. -/
theorem filter_area (uppercase : Bool) (row : List UInt8) :
    (area uppercase row).filter (· != ' ') =
      row.flatMap fun b => Hexadecimal.fixed uppercase 2 b.toNat := by
  have hdigits (b : UInt8) : (Hexadecimal.fixed uppercase 2 b.toNat).filter (· != ' ') =
      Hexadecimal.fixed uppercase 2 b.toNat := by
    rw [List.filter_eq_self]
    intro c hc
    have hblank := alphabet_ne_blank uppercase c (Hexadecimal.mem_alphabet_of_mem_fixed c hc)
    simpa using hblank.1
  have hgap (p : Prop) [Decidable p] : (if p then [' '] else []).filter (· != ' ') = [] := by
    split <;> rfl
  have hbytes (j : Nat) : ((row.zipIdx j).flatMap fun (b, i) =>
      (if i % 8 = 0 then [' '] else []) ++ Hexadecimal.fixed uppercase 2 b.toNat ++ [' ']).filter
        (· != ' ') = row.flatMap fun b => Hexadecimal.fixed uppercase 2 b.toNat := by
    induction row generalizing j with
    | nil => rfl
    | cons b row ih =>
      rw [List.zipIdx_cons, List.flatMap_cons, List.filter_append, ih, List.flatMap_cons,
        List.filter_append, List.filter_append, hgap, hdigits]
      simp
  have hpadding (is : List Nat) (m : Nat) : (is.flatMap fun i =>
      (if m - i = 8 then [' '] else []) ++ [' ', ' ', ' ']).filter (· != ' ') = [] := by
    induction is with
    | nil => rfl
    | cons i is ih =>
      rw [List.flatMap_cons, List.filter_append, ih, List.filter_append, hgap]
      rfl
  rw [area, List.filter_append, hbytes, hpadding, List.append_nil]

theorem newline_not_mem_area (uppercase : Bool) (row : List UInt8) :
    '\n' ∉ area uppercase row := by
  intro hmem
  have hfilter : '\n' ∈ (area uppercase row).filter (· != ' ') :=
    List.mem_filter.2 ⟨hmem, by decide⟩
  rw [filter_area] at hfilter
  obtain ⟨b, -, hdigit⟩ := List.mem_flatMap.1 hfilter
  exact (alphabet_ne_blank uppercase _ (Hexadecimal.mem_alphabet_of_mem_fixed _ hdigit)).2 rfl

theorem printed_ne_newline (b : UInt8) : printed b ≠ '\n' := by
  unfold printed isprint
  split
  · next hprint =>
    intro hnewline
    have hvalid : b.toNat.isValidChar := Or.inl (Nat.lt_trans b.toNat_lt (by decide))
    have hsame : (Char.ofNat b.toNat).toNat = b.toNat := by
      rw [Char.ofNat, dif_pos hvalid]
      rfl
    have hten : b.toNat = 10 := by
      rw [← hsame, hnewline]
      rfl
    simp only [Bool.and_eq_true, decide_eq_true_eq, UInt8.le_iff_toNat_le] at hprint
    have hlow : 32 ≤ b.toNat := hprint.1
    omega
  · decide

theorem newline_not_mem_line (uppercase : Bool) (indent address : Nat) (row : List UInt8) :
    '\n' ∉ line uppercase indent address row := by
  unfold line
  simp only [List.mem_append, not_or]
  refine ⟨⟨⟨?_, ?_⟩, newline_not_mem_area uppercase row⟩, ?_⟩
  · intro hmem
    exact absurd (List.eq_of_mem_replicate hmem) (by decide)
  · intro hmem
    exact (alphabet_ne_blank uppercase _ (Hexadecimal.mem_alphabet_of_mem_fixed _ hmem)).2 rfl
  · intro hmem
    obtain ⟨b, -, hb⟩ := List.mem_map.1 hmem
    exact printed_ne_newline b hb

/-! ## The dump -/

/-- A line has the spaces, the address in eight digits, an area of 50 characters whose digits are
the bytes, and a character for each byte. -/
def IsHexLine (indent address : Nat) (row : List UInt8) (text : List Char) : Prop :=
  ∃ addressDigits area,
    text = List.replicate indent ' ' ++ addressDigits ++ area ++ row.map printed ∧
    addressDigits.length = 8 ∧ Hexadecimal.value addressDigits = some address ∧ area.length = 50 ∧
    Hexadecimal.bytes (area.filter (· != ' ')) = some row

/-- The bytes whose digits are in the area of a line. -/
def readArea (indent : Nat) (text : List Char) : Option (List UInt8) :=
  Hexadecimal.bytes (((text.drop (indent + 8)).take 50).filter (· != ' '))

theorem isHexLine_line (uppercase : Bool) (indent : Nat) {address : Nat} (hmax : address < 2 ^ 32)
    {row : List UInt8} (hne : row ≠ []) (hrow : row.length ≤ 16) :
    IsHexLine indent address row (line uppercase indent address row) := by
  refine ⟨_, _, rfl, ?_, Hexadecimal.value_fixed uppercase 8 address,
    length_area uppercase hne hrow, ?_⟩
  · rw [Hexadecimal.length_fixed_eq_iff uppercase (by decide)]
    omega
  · rw [filter_area, Hexadecimal.bytes_flatMap_fixed]

theorem IsHexLine.readArea {indent address : Nat} {row : List UInt8} {text : List Char}
    (h : IsHexLine indent address row text) : readArea indent text = some row := by
  obtain ⟨addressDigits, area, rfl, haddress, -, harea, hbytes⟩ := h
  have hdrop : (List.replicate indent ' ' ++ addressDigits ++ area ++ row.map printed).drop
      (indent + 8) = area ++ row.map printed := by
    rw [List.append_assoc]
    apply List.drop_left'
    rw [List.length_append, List.length_replicate, haddress]
  rw [HexDump.readArea, hdrop, List.take_left' harea, hbytes]

theorem getElem?_lines (uppercase : Bool) (indent address : Nat) (rows : List (List UInt8))
    (k : Nat) : (lines uppercase indent address rows)[k]? =
      rows[k]?.map fun row => line uppercase indent (address + 16 * k) row := by
  induction rows generalizing address k with
  | nil => rfl
  | cons row rows ih =>
    cases k with
    | zero => rfl
    | succ k =>
      rw [lines, List.getElem?_cons_succ, ih, List.getElem?_cons_succ, Nat.mul_succ,
        Nat.add_assoc address, Nat.add_comm 16]

theorem length_lines (uppercase : Bool) (indent address : Nat) (rows : List (List UInt8)) :
    (lines uppercase indent address rows).length = rows.length := by
  induction rows generalizing address with
  | nil => rfl
  | cons row rows ih => rw [lines, List.length_cons, ih, List.length_cons]

/-- The areas of the lines are read as the rows. -/
theorem mapM_readArea_lines (uppercase : Bool) (indent : Nat) {address : Nat}
    {rows : List (List UInt8)} (hrows : ∀ row ∈ rows, row ≠ [] ∧ row.length ≤ 16)
    (hmax : address + 16 * rows.length ≤ 2 ^ 32) :
    (lines uppercase indent address rows).mapM (readArea indent) = some rows := by
  induction rows generalizing address with
  | nil => rfl
  | cons row rows ih =>
    obtain ⟨⟨hne, hrow⟩, hrest⟩ := List.forall_mem_cons.1 hrows
    rw [List.length_cons] at hmax
    have hfirst := (isHexLine_line uppercase indent (by omega : address < 2 ^ 32) hne hrow).readArea
    have hothers := ih hrest (by omega : address + 16 + 16 * rows.length ≤ 2 ^ 32)
    rw [lines, List.mapM_cons, hfirst, hothers]
    rfl

theorem newline_not_mem_lines (uppercase : Bool) (indent address : Nat) (rows : List (List UInt8)) :
    ∀ text ∈ lines uppercase indent address rows, '\n' ∉ text := by
  induction rows generalizing address with
  | nil => simp [lines]
  | cons row rows ih =>
    rw [lines]
    exact List.forall_mem_cons.2 ⟨newline_not_mem_line _ _ _ _, ih _⟩

end HexDump

open HexDump in
/-- **Hex dumps.** A dump of less than 2^31 elements has a line for each sixteen bytes, with its
address, and the digits of all lines are the bytes in order. No width is pending for what is written
next to the destination, and its alignment and `showbase` are those of a new stream. -/
theorem dumpAsHex_lines {α : Type} [ByteElement α] (elements : List α) (indent : Int)
    (before : List Char) (hex uppercase : Bool) (fill : Char) (hmax : elements.length < 2 ^ 31) :
    ∃ (t : OutputStream) (texts : List (List Char)),
      dumpAsHex elements { text := before, hex, uppercase, fill } indent = some t ∧
      t.text = before ++ texts.flatMap (· ++ ['\n']) ∧
      texts.length = (elements.length + 15) / 16 ∧
      (∀ text ∈ texts, '\n' ∉ text) ∧
      (∀ k text, texts[k]? = some text → IsHexLine indent.toNat (16 * k)
        (((elements.map toUnsignedChar).drop (16 * k)).take 16) text) ∧
      (texts.mapM (readArea indent.toNat)).map List.flatten =
        some (elements.map toUnsignedChar) := by
  have hstart : Holds uppercase before 0 []
      { destination := { text := before, hex := true, uppercase, fill := '0' } } :=
    ⟨rfl, Nat.zero_le _, rfl, rfl, rfl⟩
  obtain ⟨s, t, hs, ht, htext⟩ := run_eq indent elements hstart (by simpa using hmax)
  rw [List.nil_append] at htext
  generalize hbytes : elements.map toUnsignedChar = bytes at htext ⊢
  have hlength : bytes.length = elements.length := by rw [← hbytes, List.length_map]
  have hrows : ∀ row ∈ Rows.rows 16 bytes, row ≠ [] ∧ row.length ≤ 16 :=
    fun row hrow => Rows.of_mem_rows (by decide) hrow
  have hcount : (Rows.rows 16 bytes).length = (elements.length + 15) / 16 := by
    rw [Rows.length_rows, hlength]
  refine ⟨t, lines uppercase indent.toNat 0 (Rows.rows 16 bytes), ?_, htext, ?_,
    newline_not_mem_lines _ _ _ _, ?_, ?_⟩
  · unfold dumpAsHex
    rw [hs]
    exact ht
  · rw [length_lines, hcount]
  · intro k text hk
    rw [getElem?_lines] at hk
    obtain ⟨row, hrow, rfl⟩ := Option.map_eq_some_iff.1 hk
    obtain ⟨hlt, -⟩ := List.getElem?_eq_some_iff.1 hrow
    obtain ⟨hne, hshort⟩ := hrows row (List.mem_of_getElem? hrow)
    rw [hcount] at hlt
    rw [← Rows.getElem?_rows hrow, Nat.zero_add]
    exact isHexLine_line uppercase indent.toNat (by omega) hne hshort
  · rw [mapM_readArea_lines uppercase indent.toNat hrows (by rw [hcount]; omega), Option.map_some,
      Rows.flatten_rows (by decide)]

/-- "Hello, World!". -/
def helloWorld : List UInt8 := [72, 101, 108, 108, 111, 44, 32, 87, 111, 114, 108, 100, 33]

theorem dumpAsHex_lines_sample :
    ∃ (t : OutputStream) (text : List Char), dumpAsHex helloWorld {} = some t ∧
      t.text = text ++ ['\n'] ∧ HexDump.IsHexLine 0 0 helloWorld text := by
  obtain ⟨t, texts, hdump, htext, hlength, -, hlines, -⟩ :=
    dumpAsHex_lines helloWorld 0 [] false false ' ' (by decide)
  obtain ⟨text, rfl⟩ := List.length_eq_one_iff.1 hlength
  exact ⟨t, text, hdump, by simpa using htext, hlines 0 text rfl⟩

-- the line that the comment of the function shows
example : (dumpAsHex helloWorld {}).map OutputStream.text =
    some "00000000 48 65 6c 6c 6f 2c 20 57  6f 72 6c 64 21          Hello, World!\n".toList := by
  decide +kernel

end KeycapRoot.Utility

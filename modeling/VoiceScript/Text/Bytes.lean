namespace VoiceScript.Text

/-- The number of bytes of the UTF-8 form of a text. Offsets into a text count bytes. -/
def byteLength : List Char → Nat
  | [] => 0
  | c :: cs => c.utf8Size + byteLength cs

/-- The longest front part of a text that takes at most so many bytes. An offset inside a character stands
for the start of it. -/
def takeBytes : Nat → List Char → List Char
  | _, [] => []
  | n, c :: cs => if c.utf8Size ≤ n then c :: takeBytes (n - c.utf8Size) cs else []

/-- What `takeBytes` leaves. -/
def dropBytes : Nat → List Char → List Char
  | _, [] => []
  | n, c :: cs => if c.utf8Size ≤ n then dropBytes (n - c.utf8Size) cs else c :: cs

/-- The part of a text between two offsets. -/
def slice (start stop : Nat) (cs : List Char) : List Char :=
  dropBytes start (takeBytes stop cs)

@[simp] theorem byteLength_nil : byteLength [] = 0 := rfl

@[simp] theorem byteLength_cons (c : Char) (cs : List Char) :
    byteLength (c :: cs) = c.utf8Size + byteLength cs := rfl

@[simp] theorem byteLength_append (as bs : List Char) :
    byteLength (as ++ bs) = byteLength as + byteLength bs := by
  induction as with
  | nil => simp
  | cons c cs ih => simp [ih, Nat.add_assoc]

/-- Cutting at an offset loses nothing. -/
theorem takeBytes_append_dropBytes (n : Nat) (cs : List Char) :
    takeBytes n cs ++ dropBytes n cs = cs := by
  induction cs generalizing n with
  | nil => rfl
  | cons c cs ih =>
    unfold takeBytes dropBytes
    split
    · simp [ih]
    · rfl

theorem takeBytes_isPrefix (n : Nat) (cs : List Char) : takeBytes n cs <+: cs :=
  ⟨dropBytes n cs, takeBytes_append_dropBytes n cs⟩

/-- The front part fits. -/
theorem byteLength_takeBytes_le (n : Nat) (cs : List Char) :
    byteLength (takeBytes n cs) ≤ n := by
  induction cs generalizing n with
  | nil => exact Nat.zero_le n
  | cons c cs ih =>
    unfold takeBytes
    split
    · have := ih (n - c.utf8Size)
      simp only [byteLength_cons]
      omega
    · exact Nat.zero_le n

/-- A cut after a front part gives that part back. -/
theorem takeBytes_add (as bs : List Char) (n : Nat) :
    takeBytes (byteLength as + n) (as ++ bs) = as ++ takeBytes n bs := by
  induction as with
  | nil => rw [byteLength_nil, Nat.zero_add, List.nil_append, List.nil_append]
  | cons c cs ih =>
    rw [List.cons_append, takeBytes, byteLength_cons, if_pos (by omega), Nat.add_assoc,
      Nat.add_sub_cancel_left, ih, List.cons_append]

/-- A cut at the end of a front part gives that part back. -/
theorem takeBytes_append (as bs : List Char) :
    takeBytes (byteLength as) (as ++ bs) = as ++ takeBytes 0 bs :=
  takeBytes_add as bs 0

theorem byteLength_pos {cs : List Char} (h : cs ≠ []) : 0 < byteLength cs := by
  cases cs with
  | nil => exact absurd rfl h
  | cons c cs =>
    have := c.utf8Size_pos
    rw [byteLength_cons]
    omega

@[simp] theorem takeBytes_zero (cs : List Char) : takeBytes 0 cs = [] := by
  cases cs with
  | nil => rfl
  | cons c cs =>
    have := c.utf8Size_pos
    rw [takeBytes, if_neg (by omega)]

@[simp] theorem dropBytes_zero (cs : List Char) : dropBytes 0 cs = cs := by
  cases cs with
  | nil => rfl
  | cons c cs =>
    have := c.utf8Size_pos
    rw [dropBytes, if_neg (by omega)]

/-- A cut inside a front part does not see the rest. -/
theorem takeBytes_append_of_le {n : Nat} {as : List Char} (h : n ≤ byteLength as) (bs : List Char) :
    takeBytes n (as ++ bs) = takeBytes n as := by
  induction as generalizing n with
  | nil =>
    rw [byteLength_nil, Nat.le_zero] at h
    rw [h, takeBytes_zero, takeBytes_zero]
  | cons c cs ih =>
    rw [List.cons_append, takeBytes, takeBytes]
    split
    · rw [byteLength_cons] at h
      rw [ih (by omega)]
    · rfl

theorem dropBytes_add (as bs : List Char) (n : Nat) :
    dropBytes (byteLength as + n) (as ++ bs) = dropBytes n bs := by
  induction as with
  | nil => rw [byteLength_nil, Nat.zero_add, List.nil_append]
  | cons c cs ih =>
    rw [List.cons_append, dropBytes, byteLength_cons, if_pos (by omega), Nat.add_assoc,
      Nat.add_sub_cancel_left, ih]

/-- A cut at the end of a front part leaves the rest. -/
theorem dropBytes_append (as bs : List Char) : dropBytes (byteLength as) (as ++ bs) = bs :=
  (dropBytes_add as bs 0).trans (dropBytes_zero bs)

/-- A part of the first of two texts. -/
theorem slice_append_of_le {stop : Nat} {as : List Char} (h : stop ≤ byteLength as) (start : Nat)
    (bs : List Char) : slice start stop (as ++ bs) = slice start stop as := by
  rw [slice, slice, takeBytes_append_of_le h]

/-- A part of the second of two texts. -/
theorem slice_add (as bs : List Char) (start stop : Nat) :
    slice (byteLength as + start) (byteLength as + stop) (as ++ bs) = slice start stop bs := by
  rw [slice, takeBytes_add, dropBytes_add, slice]

/-- The part between the ends of two front parts is what the longer one has more. -/
theorem slice_append (as bs cs : List Char) :
    slice (byteLength as) (byteLength as + byteLength bs) (as ++ bs ++ cs) = bs := by
  rw [slice, ← byteLength_append, takeBytes_append, takeBytes_zero, List.append_nil,
    dropBytes_append]

end VoiceScript.Text

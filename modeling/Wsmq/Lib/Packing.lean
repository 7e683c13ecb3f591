import Wsmq.Lib.ByteString

/-! Records written field by field through a moving pointer. -/

namespace Lib.Packing
open Lib.ByteString

/-- One write, and by how far the pointer moves afterwards. -/
structure Field where
  bytes : Bytes
  advance : Nat

/-- The pointer moves over at least what was written. -/
def Field.Fits (f : Field) : Prop := f.bytes.length ≤ f.advance

instance (f : Field) : Decidable f.Fits := inferInstanceAs (Decidable (_ ≤ _))

def size (fs : List Field) : Nat := (fs.map Field.advance).sum

def place (buf : Mem) : Nat → List Field → Mem
  | _, [] => buf
  | pos, f :: fs => place (buf.write pos f.bytes) (pos + f.advance) fs

/-- What the fields leave in a zeroed buffer. -/
def image (fs : List Field) : Bytes := fs.flatMap fun f => pad f.advance f.bytes

@[simp] theorem size_nil : size [] = 0 := rfl

@[simp] theorem size_cons (f : Field) (fs : List Field) :
    size (f :: fs) = f.advance + size fs := by simp [size]

@[simp] theorem size_append (fs gs : List Field) : size (fs ++ gs) = size fs + size gs := by
  simp [size]

@[simp] theorem image_nil : image [] = [] := rfl

@[simp] theorem image_cons (f : Field) (fs : List Field) :
    image (f :: fs) = pad f.advance f.bytes ++ image fs := rfl

theorem image_append (fs gs : List Field) : image (fs ++ gs) = image fs ++ image gs := by
  simp [image]

theorem image_length {fs : List Field} (h : ∀ f ∈ fs, f.Fits) : (image fs).length = size fs := by
  induction fs with
  | nil => rfl
  | cons f fs ih =>
    rw [image_cons, size_cons, List.length_append, pad_length (h f (by simp)),
      ih fun g hg => h g (by simp [hg])]

theorem place_of_lt (buf : Mem) {pos x : Nat} (fs : List Field) (h : x < pos) :
    place buf pos fs x = buf x := by
  induction fs generalizing buf pos with
  | nil => rfl
  | cons f fs ih => rw [place, ih _ (by omega), Mem.write_of_lt _ _ h]

/-- The field at `pos`, or one behind it, writes to `x`. -/
def Written (x : Nat) : Nat → List Field → Prop
  | _, [] => False
  | pos, f :: fs => (pos ≤ x ∧ x < pos + f.bytes.length) ∨ Written x (pos + f.advance) fs

theorem Written.lt {x pos : Nat} {fs : List Field} (h : Written x pos fs)
    (hf : ∀ f ∈ fs, f.Fits) : x < pos + size fs := by
  induction fs generalizing pos with
  | nil => cases h
  | cons f fs ih =>
    rw [size_cons]
    rcases h with ⟨_, hlt⟩ | h
    · have hfit : f.bytes.length ≤ f.advance := hf f List.mem_cons_self
      omega
    · have hrest := ih h fun g hg => hf g (List.mem_cons_of_mem _ hg)
      omega

theorem place_of_not_written (buf : Mem) {x pos : Nat} {fs : List Field}
    (h : ¬ Written x pos fs) : place buf pos fs x = buf x := by
  induction fs generalizing buf pos with
  | nil => rfl
  | cons f fs ih =>
    obtain ⟨hfirst, hrest⟩ := not_or.mp h
    rw [place, ih _ hrest]
    exact if_neg hfirst

/-- What is written does not depend on what was there. -/
theorem place_of_written (buf buf' : Mem) {x pos : Nat} {fs : List Field}
    (h : Written x pos fs) : place buf pos fs x = place buf' pos fs x := by
  induction fs generalizing buf buf' pos with
  | nil => cases h
  | cons f fs ih =>
    rw [place, place]
    by_cases hrest : Written x (pos + f.advance) fs
    · exact ih _ _ hrest
    · have hfirst := h.resolve_right hrest
      rw [place_of_not_written _ hrest, place_of_not_written _ hrest]
      exact (if_pos hfirst).trans (if_pos hfirst).symm

/-- The bytes from `n` on are left as they are when no field writes there. -/
theorem place_unchanged_iff {n pos : Nat} {fs : List Field} :
    (∀ buf x, n ≤ x → place buf pos fs x = buf x) ↔ ∀ x, Written x pos fs → x < n := by
  constructor
  · intro h x hx
    by_contra hge
    have hone := h (fun _ => 0) x (Nat.le_of_not_lt hge)
    have htwo := h (fun _ => 1) x (Nat.le_of_not_lt hge)
    rw [place_of_written _ (fun _ => 1) hx, htwo] at hone
    exact absurd hone (by decide)
  · intro h buf x hx
    exact place_of_not_written buf fun hwritten => Nat.not_lt.mpr hx (h x hwritten)

theorem read_write_pad {buf : Mem} {pos : Nat} (f : Field) (hf : f.Fits)
    (hz : ∀ x, pos ≤ x → buf x = 0) :
    (buf.write pos f.bytes).read pos f.advance = pad f.advance f.bytes := by
  have hl := pad_length hf
  suffices h : (buf.write pos f.bytes).read pos (pad f.advance f.bytes).length =
      pad f.advance f.bytes by rwa [hl] at h
  rw [Mem.read_eq_iff]
  intro i hi
  by_cases hb : i < f.bytes.length
  · rw [Mem.write_at _ _ _ _ hb]
    simp [pad, List.getElem_append_left hb]
  · rw [Mem.write_of_ge _ _ (by omega), hz _ (by omega)]
    simp [pad, List.getElem_append_right (Nat.le_of_not_lt hb)]

/-- A zeroed buffer holds the fields one after the other, each padded with zeros. -/
theorem read_place {buf : Mem} {pos : Nat} {fs : List Field} (hf : ∀ f ∈ fs, f.Fits)
    (hz : ∀ x, pos ≤ x → buf x = 0) : (place buf pos fs).read pos (size fs) = image fs := by
  induction fs generalizing buf pos with
  | nil => rfl
  | cons f fs ih =>
    have hfit := hf f (by simp)
    have hfirst : (place (buf.write pos f.bytes) (pos + f.advance) fs).read pos f.advance =
        pad f.advance f.bytes := by
      rw [← read_write_pad f hfit hz]
      exact Mem.read_congr fun i hi => place_of_lt _ _ (by omega)
    have hzero : ∀ x, pos + f.advance ≤ x → buf.write pos f.bytes x = 0 := by
      intro x hx
      have hlen : f.bytes.length ≤ f.advance := hfit
      rw [Mem.write_of_ge _ _ (by omega), hz x (by omega)]
    have hrest := ih (fun g hg => hf g (by simp [hg])) hzero
    rw [place, size_cons, Mem.read_append, hfirst, hrest, image_cons]

/-- The fields, each with what the buffer holds behind it. -/
def fill (buf : Mem) : Nat → List Field → List Field
  | _, [] => []
  | pos, f :: fs =>
    ⟨f.bytes ++ buf.read (pos + f.bytes.length) (f.advance - f.bytes.length), f.advance⟩ ::
      fill buf (pos + f.advance) fs

theorem fill_congr {buf buf' : Mem} {pos : Nat} (fs : List Field)
    (h : ∀ x, pos ≤ x → buf x = buf' x) : fill buf pos fs = fill buf' pos fs := by
  induction fs generalizing pos with
  | nil => rfl
  | cons f fs ih =>
    have hgap : buf.read (pos + f.bytes.length) (f.advance - f.bytes.length) =
        buf'.read (pos + f.bytes.length) (f.advance - f.bytes.length) :=
      Mem.read_congr fun i _ => h _ (by omega)
    rw [fill, fill, hgap, ih fun x hx => h x (by omega)]

/-- Any buffer holds the fields one after the other, with what stood between them. -/
theorem read_place_fill (buf : Mem) (pos : Nat) {fs : List Field} (hf : ∀ f ∈ fs, f.Fits) :
    (place buf pos fs).read pos (size fs) = image (fill buf pos fs) := by
  induction fs generalizing buf pos with
  | nil => rfl
  | cons f fs ih =>
    have hfit : f.bytes.length ≤ f.advance := hf f List.mem_cons_self
    have hsplit : f.advance = f.bytes.length + (f.advance - f.bytes.length) := by omega
    have hkept : (place (buf.write pos f.bytes) (pos + f.advance) fs).read pos f.advance =
        (buf.write pos f.bytes).read pos f.advance :=
      Mem.read_congr fun i hi => place_of_lt _ _ (by omega)
    have hgap : (buf.write pos f.bytes).read (pos + f.bytes.length)
        (f.advance - f.bytes.length) = buf.read (pos + f.bytes.length)
          (f.advance - f.bytes.length) :=
      Mem.read_congr fun i _ => Mem.write_of_ge _ _ (by omega)
    have hfirst : (place (buf.write pos f.bytes) (pos + f.advance) fs).read pos f.advance =
        f.bytes ++ buf.read (pos + f.bytes.length) (f.advance - f.bytes.length) := by
      rw [hkept, hsplit, Mem.read_append, Mem.read_write_same, Nat.add_sub_cancel_left, hgap]
    have hpad : ∀ bs : Bytes, bs.length = f.advance → pad f.advance bs = bs := by
      intro bs hbs
      rw [pad, hbs, Nat.sub_self, List.replicate_zero, List.append_nil]
    have hrest := ih (buf.write pos f.bytes) (pos + f.advance)
      fun g hg => hf g (List.mem_cons_of_mem _ hg)
    rw [place, size_cons, Mem.read_append, hfirst, hrest, fill, image_cons]
    dsimp only
    rw [hpad _ (by rw [List.length_append, Mem.read_length]; omega),
      fill_congr fs fun x hx => Mem.write_of_ge _ _ (by omega)]

/-- A field stands where its pointer was, whatever was there before. -/
theorem read_place_field (buf : Mem) {pos : Nat} (pre : List Field) {f : Field}
    {post : List Field} (hf : f.Fits) :
    (place buf pos (pre ++ f :: post)).read (pos + size pre) f.bytes.length = f.bytes := by
  induction pre generalizing buf pos with
  | nil =>
    have hlen : f.bytes.length ≤ f.advance := hf
    have hsame : (place (buf.write pos f.bytes) (pos + f.advance) post).read pos f.bytes.length =
        (buf.write pos f.bytes).read pos f.bytes.length :=
      Mem.read_congr fun i hi => place_of_lt _ _ (by omega)
    rw [List.nil_append, place, size_nil, Nat.add_zero, hsame, Mem.read_write_same]
  | cons g pre ih =>
    rw [List.cons_append, place, size_cons, ← Nat.add_assoc]
    exact ih _

/-- The memory holds `bs` from address `a` on. -/
def Holds (m : Mem) (a : Nat) (bs : Bytes) : Prop := m.read a bs.length = bs

theorem holds_ofBytes (bs : Bytes) : Holds (Mem.ofBytes bs) 0 bs := by
  have h := Mem.read_ofBytes_append [] bs []
  simpa [Holds] using h

theorem Holds.append {m : Mem} {a : Nat} {bs cs : Bytes} (h : Holds m a (bs ++ cs)) :
    Holds m a bs ∧ Holds m (a + bs.length) cs := by
  unfold Holds at h
  rw [List.length_append, Mem.read_append] at h
  exact List.append_inj h (Mem.read_length _ _ _)

/-- Each field stands at the sum of the advances before it. -/
theorem Holds.field {m : Mem} {a : Nat} {pre post : List Field} {f : Field}
    (h : Holds m a (image (pre ++ f :: post))) (hf : ∀ g ∈ pre ++ f :: post, g.Fits) :
    m.read (a + size pre) f.advance = pad f.advance f.bytes := by
  have hpre : ∀ g ∈ pre, g.Fits := fun g hg => hf g (List.mem_append_left _ hg)
  have hfit : f.Fits := hf f (List.mem_append_right _ List.mem_cons_self)
  rw [image_append, image_cons] at h
  have hfield := h.append.2.append.1
  rw [image_length hpre] at hfield
  unfold Holds at hfield
  rwa [pad_length hfit] at hfield

end Lib.Packing

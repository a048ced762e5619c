import GeoDispatch.Proofs.Json.Fields
import GeoDispatch.Proofs.Json.Numeral
import GeoDispatch.Proofs.Json.RoundTrip
import GeoDispatch.Proofs.Zone.Notes
import GeoDispatch.Samples
import Mathlib.Data.List.Forall2

/-! # Documents of fences

A collection is written as one member with a list of fences, a fence as five members.  Reading what
is written comes down to the coordinates: point, polygon, fence and collection are read whenever
their parts are, each with an equation of its own (`Point.decode?_encode`,
`Polygon.decode?_encode`, `Fence.decode?_encode`, `FenceCollection.decode?_encode`).  Names and
kinds are always read as they are, and notes by increasing keys.  So a collection is read back up
to the order of its notes (`Fence.Same`), which no question about it depends on
(`FenceCollection.AnswersLike`), unless a coordinate is written as null.

Notes are the one field that may be missing: a fence is then read without notes, and otherwise as
with them (`Fence.decode?_without_metadata`).
-/

namespace GeoDispatch

open Json

/-! ## Fences that differ in the order of their notes -/

/-- Whether two fences are the same; the order in which the notes are listed does not count. -/
structure Fence.Same (f f' : Fence) : Prop where
  id : f'.id = f.id
  name : f'.name = f.name
  kind : f'.kind = f.kind
  polygon : f'.polygon = f.polygon
  metadata : ∀ key, f'.metadata.lookup key = f.metadata.lookup key

/-- The fence with its notes by increasing keys. -/
def Fence.ordered (f : Fence) : Fence := { f with metadata := notesOf f.metadata }

theorem Fence.same_ordered {f : Fence} (distinct : (f.metadata.map Prod.fst).Nodup) :
    f.Same f.ordered :=
  ⟨rfl, rfl, rfl, rfl, lookup_notesOf distinct⟩

theorem Fence.ordered_of_pairwise {f : Fence}
    (sorted : f.metadata.Pairwise fun m m' => m.1 < m'.1) : f.ordered = f := by
  rw [ordered, notesOf_of_pairwise sorted]

namespace FenceCollection

/-- Whether two collections hold the same fences in the same order and so answer alike. -/
structure AnswersLike (c c' : FenceCollection) : Prop where
  fences : List.Forall₂ Fence.Same c.fences c'.fences
  get? : ∀ id, Option.Rel Fence.Same (c.get? id) (c'.get? id)
  containing : ∀ p, List.Forall₂ Fence.Same (c.containing p) (c'.containing p)
  containingOfKind : ∀ p k,
    List.Forall₂ Fence.Same (c.containingOfKind p k) (c'.containingOfKind p k)
  inServiceArea : ∀ p, c'.inServiceArea p = c.inServiceArea p

theorem AnswersLike.of_fences {c c' : FenceCollection}
    (h : List.Forall₂ Fence.Same c.fences c'.fences) : c.AnswersLike c' := by
  obtain ⟨fs⟩ := c
  obtain ⟨fs'⟩ := c'
  replace h : List.Forall₂ Fence.Same fs fs' := h
  have inside {f f' : Fence} (same : f.Same f') (p : Point Float) :
      f'.contains p = f.contains p := by
    rw [Fence.contains, Fence.contains, same.polygon]
  have zone {f f' : Fence} (same : f.Same f') (p : Point Float) (k : FenceKind) :
      (f'.kind == k && f'.contains p) = (f.kind == k && f.contains p) := by
    rw [same.kind, inside same]
  refine ⟨h, fun id => ?_, fun p => ?_, fun p k => ?_, fun p => ?_⟩
  · show Option.Rel Fence.Same (fs.find? _) (fs'.find? _)
    induction h with
    | nil => exact .none
    | @cons f f' fs fs' same _ ih =>
      rw [List.find?_cons, List.find?_cons, same.id]
      cases f.id == id with
      | true => exact .some same
      | false => exact ih
  · refine List.rel_filter (fun f f' same => ?_) h
    show f.contains p = true ↔ f'.contains p = true
    rw [inside same]
  · refine List.rel_filter (fun f f' same => ?_) h
    show (f.kind == k && f.contains p) = true ↔ (f'.kind == k && f'.contains p) = true
    rw [zone same]
  · show fs'.any _ = fs.any _
    induction h with
    | nil => rfl
    | @cons f f' fs fs' same _ ih => rw [List.any_cons, List.any_cons, zone same, ih]

/-- The collection with the notes of each fence by increasing keys. -/
def ordered (c : FenceCollection) : FenceCollection := ⟨c.fences.map Fence.ordered⟩

variable {c : FenceCollection}

theorem answersLike_ordered (distinct : ∀ f ∈ c.fences, (f.metadata.map Prod.fst).Nodup) :
    c.AnswersLike c.ordered := by
  refine .of_fences (List.forall₂_map_right_iff.mpr (List.forall₂_same.mpr fun f hf => ?_))
  exact Fence.same_ordered (distinct f hf)

theorem ordered_of_pairwise
    (sorted : ∀ f ∈ c.fences, f.metadata.Pairwise fun m m' => m.1 < m'.1) : c.ordered = c := by
  have fences : c.fences.map Fence.ordered = c.fences.map id :=
    List.map_congr_left fun f hf => Fence.ordered_of_pairwise (sorted f hf)
  rw [ordered, fences, List.map_id]

/-- The coordinates of all vertices. -/
def coordinates (c : FenceCollection) : List Float :=
  c.fences.flatMap fun f => f.polygon.points.flatMap fun p => [p.lat, p.lng]

theorem mem_coordinates_iff {x : Float} :
    x ∈ c.coordinates ↔ ∃ f ∈ c.fences, ∃ p ∈ f.polygon.points, x = p.lat ∨ x = p.lng := by
  rw [coordinates, List.mem_flatMap]
  refine exists_congr fun f => and_congr_right fun _ => ?_
  rw [List.mem_flatMap]
  refine exists_congr fun p => and_congr_right fun _ => ?_
  rw [List.mem_cons, List.mem_singleton]

end FenceCollection

/-! ## Lists -/

namespace Json.Codec

variable {β : Type} [Codec β] {xs : List β}

theorem decode?_encode_list {g : β → β} (each : ∀ x ∈ xs, decode? (encode x) = some (g x)) :
    decode? (encode xs) = some (xs.map g) := by
  show (xs.map encode).mapM (decode? : Decoder β) = some (xs.map g)
  rw [List.mapM_map]
  exact mapM_eq_some_map each

/-- A list with a member that is not read is not read. -/
theorem decode?_encode_list_eq_none {x : β} (hx : x ∈ xs)
    (h : (decode? (encode x) : Option β) = none) :
    (decode? (encode xs) : Option (List β)) = none := by
  cases hys : (decode? (encode xs) : Option (List β)) with
  | none => rfl
  | some ys =>
    obtain ⟨y, -, hy⟩ := exists_of_mapM_eq_some hys (List.mem_map_of_mem hx)
    rw [h] at hy
    cases hy

theorem isDefinite_encode_list (each : ∀ x ∈ xs, (encode x).isDefinite) :
    (encode xs).isDefinite := by
  show (Value.array (xs.map encode)).isDefinite
  rw [Value.isDefinite_array_iff, List.forall_mem_map]
  exact each

end Json.Codec

/-! ## What is read of what is written -/

theorem Point.decode?_encode (p : Point Float) : Codec.decode? (Codec.encode p) = (do
    let lat ← Decoder.float (.ofFloat p.lat)
    let lng ← Decoder.float (.ofFloat p.lng)
    some (Point.mk lat lng)) := rfl

theorem Polygon.decode?_encode (g : Polygon Float) :
    Codec.decode? (Codec.encode g) =
      (Codec.decode? (Codec.encode g.points)).map fun points => (⟨points⟩ : Polygon Float) := by
  rw [Option.map_eq_bind]
  rfl

namespace Fence

theorem metadata?_encode (notes : List (String × String)) :
    metadata? (some (.ofMembers (notes.map fun m : String × String => (m.1, .ofString m.2)))) =
      some (notesOf notes) := by
  have members : Decoder.stringMap
      (.ofMembers (notes.map fun m : String × String => (m.1, .ofString m.2))) = some notes := by
    rw [Value.ofMembers, Decoder.stringMap, List.mapM_map, List.mapM_map, mapM_eq_some_iff]
    exact List.map_congr_left fun _ _ => rfl
  rw [metadata?, members]
  rfl

/-- A fence is read when its polygon is, with its notes by increasing keys. -/
theorem decode?_encode (f : Fence) : Codec.decode? (Codec.encode f) =
    (Codec.decode? (Codec.encode f.polygon)).map fun g =>
      { f with polygon := g, metadata := notesOf f.metadata } := by
  have kind : Codec.decode? (Codec.encode f.kind) = some f.kind := FenceKind.ofName?_name f.kind
  show (do
    let kind ← Codec.decode? (Codec.encode f.kind)
    let polygon ← Codec.decode? (Codec.encode f.polygon)
    let metadata ← metadata?
      (some (.ofMembers (f.metadata.map fun m : String × String => (m.1, .ofString m.2))))
    some (Fence.mk f.id f.name kind polygon metadata)) = _
  rw [kind, metadata?_encode, Option.map_eq_bind]
  rfl

end Fence

theorem FenceCollection.decode?_encode (c : FenceCollection) : Codec.decode? (Codec.encode c) =
    (Codec.decode? (Codec.encode c.fences)).map FenceCollection.mk := by
  rw [Option.map_eq_bind]
  rfl

/-! ## What is written is definite -/

theorem Value.isDefinite_ofFloat {x : Float}
    (inverse : x.isFinite → Decoder.float (.ofFloat x) = some x) :
    (Value.ofFloat x).isDefinite := by
  by_cases finite : x.isFinite
  · exact Decoder.isDefinite_of_float (inverse finite)
  · rw [Value.ofFloat_of_isFinite_eq_false (Bool.eq_false_of_not_eq_true finite)]
    rfl

theorem Point.isDefinite_encode {p : Point Float} (lat : (Value.ofFloat p.lat).isDefinite)
    (lng : (Value.ofFloat p.lng).isDefinite) : (Codec.encode p).isDefinite := by
  show (Value.ofMembers _).isDefinite
  rw [Value.isDefinite_ofMembers_iff, List.forall_mem_cons, List.forall_mem_singleton]
  exact ⟨lat, lng⟩

theorem Polygon.isDefinite_encode {g : Polygon Float}
    (points : ∀ p ∈ g.points, (Codec.encode p).isDefinite) : (Codec.encode g).isDefinite := by
  show (Value.ofMembers _).isDefinite
  rw [Value.isDefinite_ofMembers_iff, List.forall_mem_singleton]
  exact Codec.isDefinite_encode_list points

theorem Fence.isDefinite_encode {f : Fence} (polygon : (Codec.encode f.polygon).isDefinite) :
    (Codec.encode f).isDefinite := by
  have metadata : (Value.ofMembers
      (f.metadata.map fun m : String × String => (m.1, .ofString m.2))).isDefinite := by
    rw [Value.isDefinite_ofMembers_iff, List.forall_mem_map]
    exact fun _ _ => rfl
  show (Value.ofMembers _).isDefinite
  rw [Value.isDefinite_ofMembers_iff]
  simp only [List.forall_mem_cons]
  exact ⟨rfl, rfl, rfl, polygon, metadata, List.forall_mem_nil _⟩

namespace FenceCollection

variable {c : FenceCollection}

theorem isDefinite_encode (definite : ∀ x ∈ c.coordinates, (Value.ofFloat x).isDefinite) :
    (Codec.encode c).isDefinite := by
  show (Value.ofMembers _).isDefinite
  rw [Value.isDefinite_ofMembers_iff, List.forall_mem_singleton]
  refine Codec.isDefinite_encode_list fun f hf => ?_
  refine Fence.isDefinite_encode (Polygon.isDefinite_encode fun p hp => ?_)
  exact Point.isDefinite_encode (definite _ (mem_coordinates_iff.mpr ⟨f, hf, p, hp, .inl rfl⟩))
    (definite _ (mem_coordinates_iff.mpr ⟨f, hf, p, hp, .inr rfl⟩))

/-! ## Collections that are read back -/

/-- A collection whose coordinates are read back is read with the notes by increasing keys. -/
theorem decode?_encode_of_readable
    (readable : ∀ x ∈ c.coordinates, Decoder.float (.ofFloat x) = some x) :
    Codec.decode? (Codec.encode c) = some c.ordered := by
  have point (f) (hf : f ∈ c.fences) (p) (hp : p ∈ f.polygon.points) :
      Codec.decode? (Codec.encode p) = some p := by
    rw [Point.decode?_encode, readable _ (mem_coordinates_iff.mpr ⟨f, hf, p, hp, .inl rfl⟩),
      readable _ (mem_coordinates_iff.mpr ⟨f, hf, p, hp, .inr rfl⟩)]
    rfl
  have fence (f) (hf : f ∈ c.fences) : Codec.decode? (Codec.encode f) = some f.ordered := by
    have points := Codec.decode?_encode_list (g := id) (point f hf)
    rw [List.map_id] at points
    rw [Fence.decode?_encode, Polygon.decode?_encode, points]
    rfl
  rw [decode?_encode, Codec.decode?_encode_list fence]
  rfl

/-- A collection with a coordinate that is not finite is not read back. -/
theorem decode?_encode_eq_none {x : Float} (hx : x ∈ c.coordinates) (h : x.isFinite = false) :
    (Codec.decode? (Codec.encode c) : Option FenceCollection) = none := by
  have unread : Decoder.float (.ofFloat x) = none := by
    rw [Value.ofFloat_of_isFinite_eq_false h]
    rfl
  obtain ⟨f, hf, p, hp, coordinate⟩ := mem_coordinates_iff.mp hx
  have point : (Codec.decode? (Codec.encode p) : Option (Point Float)) = none := by
    rw [Point.decode?_encode]
    rcases coordinate with rfl | rfl
    · rw [unread]
      rfl
    · rw [unread]
      cases Decoder.float (.ofFloat p.lat) <;> rfl
  have fence : (Codec.decode? (Codec.encode f) : Option Fence) = none := by
    rw [Fence.decode?_encode, Polygon.decode?_encode, Codec.decode?_encode_list_eq_none hp point]
    rfl
  rw [decode?_encode, Codec.decode?_encode_list_eq_none hf fence]
  rfl

end FenceCollection

/-! ## Fences without notes -/

/-- A fence whose notes are left out is read as with them, but without notes. -/
theorem Fence.decode?_without_metadata {front back : List (Text × Value)} {notes : Value}
    {f : Fence} (absent : ∀ m ∈ front ++ back, m.1 ≠ some "metadata")
    (h : Codec.decode? (.object (front ++ (some "metadata", notes) :: back)) = some f) :
    Codec.decode? (.object (front ++ back)) = some { f with metadata := [] } := by
  obtain ⟨values, fields, h⟩ := Option.bind_eq_some_iff.mp h
  have without := Decoder.fields_without ["id", "name", "kind", "polygon"] (by decide)
    absent fields
  refine Option.bind_eq_some_iff.mpr ⟨_, without, ?_⟩
  split at h
  · rename_i id name kind polygon metadata
    obtain ⟨_, hid, h⟩ := Option.bind_eq_some_iff.mp h
    obtain ⟨_, hname, h⟩ := Option.bind_eq_some_iff.mp h
    obtain ⟨_, hkind, h⟩ := Option.bind_eq_some_iff.mp h
    obtain ⟨_, hpolygon, h⟩ := Option.bind_eq_some_iff.mp h
    obtain ⟨_, -, h⟩ := Option.bind_eq_some_iff.mp h
    cases h
    show (do
      let id ← Codec.field? String id
      let name ← Codec.field? String name
      let kind ← Codec.field? FenceKind kind
      let polygon ← Codec.field? (Polygon Float) polygon
      let metadata ← metadata? none
      some (Fence.mk id name kind polygon metadata)) = _
    rw [hid, hname, hkind, hpolygon]
    rfl
  · cases h

namespace FenceCollection

/-- The document of a collection with the given items for its fences. -/
def document (items : List Value) : Value := .ofMembers [("geofences", .array items)]

theorem decode?_document (items : List Value) : Codec.decode? (document items) =
    (items.mapM Codec.decode?).map FenceCollection.mk := by
  rw [Option.map_eq_bind]
  rfl

/-- The notes of one fence are left out. -/
theorem decode?_document_without_metadata {before after : List Value}
    {front back : List (Text × Value)} {notes : Value} {c : FenceCollection}
    (absent : ∀ m ∈ front ++ back, m.1 ≠ some "metadata")
    (h : Codec.decode? (document
      (before ++ .object (front ++ (some "metadata", notes) :: back) :: after)) = some c) :
    Codec.decode? (document (before ++ .object (front ++ back) :: after)) =
      some (FenceCollection.mk
        (c.fences.modify before.length fun f => { f with metadata := [] })) := by
  rw [decode?_document] at h
  obtain ⟨fences, hfences, rfl⟩ := Option.map_eq_some_iff.mp h
  rw [decode?_document,
    mapM_eq_some_modify hfences fun _ hf => Fence.decode?_without_metadata absent hf]
  rfl

/-- **A collection is read back from its document.**  Of a collection of which each finite
coordinate is read as it is printed, all fences are read back, in their order, when all coordinates
are finite: their notes are then listed by increasing keys, and when each fence has at most one note
under a key, every question is answered as before.  With a coordinate that is not finite, the
document is not read.  A text in which a fence has no member for its notes is read as one in which
it has, up to the notes of this fence, of which there are none. -/
theorem collection_is_read_back :
    (∀ c : FenceCollection,
      (∀ x ∈ c.coordinates, x.isFinite → Decoder.float (.ofFloat x) = some x) →
      ((∀ x ∈ c.coordinates, x.isFinite) →
        Codec.read FenceCollection (Codec.write c) = .ok c.ordered ∧
        ((∀ f ∈ c.fences, (f.metadata.map Prod.fst).Nodup) → c.AnswersLike c.ordered) ∧
        ((∀ f ∈ c.fences, f.metadata.Pairwise fun m m' => m.1 < m'.1) → c.ordered = c)) ∧
      ((∃ x ∈ c.coordinates, x.isFinite = false) →
        Codec.read FenceCollection (Codec.write c) = .error .serialization)) ∧
    (∀ (before after : List Value) (front back : List (Text × Value)) (notes : Value) (s : String)
      (c : FenceCollection),
      (∀ m ∈ front ++ back, m.1 ≠ some "metadata") →
      Codec.decode? (document
        (before ++ .object (front ++ (some "metadata", notes) :: back) :: after)) = some c →
      parse? s = some (document (before ++ .object (front ++ back) :: after)) →
      Codec.read FenceCollection s =
        .ok ⟨c.fences.modify before.length fun f => { f with metadata := [] }⟩) := by
  constructor
  · intro c inverse
    have parsed : parse? (Codec.write c) = some (Codec.encode c) :=
      parse?_render (isDefinite_encode fun x hx => Value.isDefinite_ofFloat (inverse x hx))
    constructor
    · intro finite
      refine ⟨?_, answersLike_ordered, ordered_of_pairwise⟩
      rw [Codec.read, parsed, Option.bind_some,
        decode?_encode_of_readable fun x hx => inverse x hx (finite x hx)]
    · rintro ⟨x, hx, infinite⟩
      rw [Codec.read, parsed, Option.bind_some, decode?_encode_eq_none hx infinite]
  · intro before after front back notes s c absent read parsed
    rw [Codec.read, parsed, Option.bind_some, decode?_document_without_metadata absent read]

/-- Two fences of one identifier are read back, with the notes of the second one in the order of the
first one's.  With an infinite coordinate they are not read, and without a member for its notes the
second one is read without notes. -/
theorem two_fences_are_read_back :
    let fence : Fence := ⟨"sfo", "Airport", .airport, sampleSquare, [("level", "2"), ("lot", "A")]⟩
    let turned : Fence := { fence with metadata := [("lot", "A"), ("level", "2")] }
    let far : Fence := { fence with polygon := ⟨[⟨1 / 0, 0⟩]⟩ }
    let bare : List (Text × Value) := [(some "id", .ofString "sfo"),
      (some "name", .ofString "Airport"), (some "kind", .ofString "airport"),
      (some "polygon", Codec.encode sampleSquare)]
    Codec.read FenceCollection (Codec.write (FenceCollection.mk [fence, turned])) =
        .ok ⟨[fence, fence]⟩ ∧
      AnswersLike ⟨[fence, turned]⟩ ⟨[fence, fence]⟩ ∧
      Codec.read FenceCollection (Codec.write (FenceCollection.mk [fence, far])) =
        .error .serialization ∧
      Codec.read FenceCollection (document [Codec.encode fence, .object bare]).render =
        .ok ⟨[fence, { fence with metadata := [] }]⟩ := by
  intro fence turned far bare
  let c : FenceCollection := ⟨[fence, turned]⟩
  let notes : Value := .ofMembers [("lot", .ofString "A"), ("level", .ofString "2")]
  have ordered : c.ordered = ⟨[fence, fence]⟩ := by
    have notes : Fence.notesOf turned.metadata = fence.metadata := by decide +kernel
    have notes' : Fence.notesOf fence.metadata = fence.metadata := by decide +kernel
    show FenceCollection.mk [{ fence with metadata := Fence.notesOf fence.metadata },
      { turned with metadata := Fence.notesOf turned.metadata }] = _
    rw [notes, notes']
  have inverse : ∀ x ∈ c.coordinates, x.isFinite → Decoder.float (.ofFloat x) = some x := by
    decide +kernel
  have inverse' : ∀ x ∈ (FenceCollection.mk [fence, far]).coordinates, x.isFinite →
      Decoder.float (.ofFloat x) = some x := by decide +kernel
  have finite : ∀ x ∈ c.coordinates, x.isFinite := by decide +kernel
  have infinite : ∃ x ∈ (FenceCollection.mk [fence, far]).coordinates, x.isFinite = false := by
    decide +kernel
  have distinct : ∀ f ∈ c.fences, (f.metadata.map Prod.fst).Nodup := by decide +kernel
  obtain ⟨read, answers, -⟩ := (collection_is_read_back.1 c inverse).1 finite
  have decoded : Codec.decode? (document ([Codec.encode fence] ++
      [.object (bare ++ [(some "metadata", notes)])])) = some c.ordered :=
    decode?_encode_of_readable fun x hx => inverse x hx (finite x hx)
  rw [ordered] at read answers decoded
  exact ⟨read, answers distinct, (collection_is_read_back.1 _ inverse').2 infinite,
    collection_is_read_back.2 [Codec.encode fence] [] bare [] notes _ _ (by decide) decoded
      (parse?_render (by decide +kernel))⟩

end FenceCollection

end GeoDispatch

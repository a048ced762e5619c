import GeoDispatch.Proofs.Json.Numeral
import GeoDispatch.Proofs.Json.RoundTrip
import GeoDispatch.Proofs.Json.Value
import GeoDispatch.Proofs.Sequence.Partial
import GeoDispatch.Samples
import GeoDispatch.Zone.GeoJson

/-! # Closed and open rings

A ring is closed by its first vertex at the end and opened again by dropping the last vertex when
it equals the first one.  Opening undoes closing, whatever the vertices are
(`Polygon.openRing_closed`), because no vertex of a text is undefined; a ring whose ends are apart,
or that has one vertex, is left as it is (`Polygon.openRing_of_apart`).  The rest of a geometry has
no say in this: `Geometry.withRing` is an object with coordinates of a ring and holes, among any
other members.
-/

namespace GeoDispatch

open Json

/-- A list with its first member at the end has no other members. -/
theorem forall_mem_closed {α : Type} {P : α → Prop} {l : List α} :
    (∀ a ∈ l ++ l.take 1, P a) ↔ ∀ a ∈ l, P a := by
  rw [List.forall_mem_append]
  exact ⟨fun h => h.1, fun h => ⟨h, fun a ha => h a (List.mem_of_mem_take ha)⟩⟩

namespace Polygon

/-! ## Opening rings -/

/-- A closed ring is opened. -/
theorem openRing_closed {ps : List (Point Float)} (same : ∀ p ∈ ps.head?, p.same p = true) :
    openRing (ps ++ ps.take 1) = ps := by
  cases ps with
  | nil => rfl
  | cons p ps =>
    have closed : (p :: ps) ++ (p :: ps).take 1 = p :: (ps ++ [p]) := rfl
    have last : (p :: (ps ++ [p])).getLast? = some p := List.getLast?_concat (l := p :: ps)
    have long : (decide (2 ≤ (p :: (ps ++ [p])).length) && p.same p) = true := by
      rw [same p rfl, Bool.and_true, decide_eq_true_eq, List.length_cons, List.length_append,
        List.length_singleton]
      omega
    rw [closed, openRing, List.head?_cons, last]
    dsimp only
    rw [if_pos long]
    exact (List.dropLast_concat : ((p :: ps) ++ [p]).dropLast = p :: ps)

/-- A ring of one vertex, or one whose ends are apart, is open. -/
theorem openRing_of_apart {ps : List (Point Float)}
    (apart : ps.length ≤ 1 ∨ ∀ p ∈ ps.head?, ∀ q ∈ ps.getLast?, p.same q = false) :
    openRing ps = ps := by
  unfold openRing
  split
  · rename_i p q hp hq
    refine if_neg ?_
    rw [Bool.and_eq_true_iff, decide_eq_true_eq]
    rintro ⟨long, same⟩
    rcases apart with single | apart
    · omega
    · rw [apart p hp q hq] at same
      cases same
  · rfl

end Polygon

namespace Geometry

/-! ## Members of geometries -/

variable {key : String} {front back : List (Text × Value)} {k : Text} {v : Value}

theorem last?_middle (absent : ∀ m ∈ back, m.1 ≠ some key) :
    last? key (front ++ (some key, v) :: back) = some v := by
  have none_behind : back.reverse.find? (fun m => m.1 == some key) = none := by
    refine List.find?_eq_none.mpr fun m hm => ?_
    rw [beq_iff_eq]
    exact absent m (List.mem_reverse.mp hm)
  have found (ms : List (Text × Value)) :
      ((some key, v) :: ms).find? (fun m => m.1 == some key) = some (some key, v) :=
    List.find?_cons_of_pos (beq_self_eq_true (some key))
  rw [last?, List.reverse_append, List.reverse_cons, List.append_assoc, List.find?_append,
    none_behind, Option.none_or, List.singleton_append, found, Option.map_some]

theorem last?_other (other : k ≠ some key) :
    last? key (front ++ (k, v) :: back) = last? key (front ++ back) := by
  have passed (ms : List (Text × Value)) :
      ((k, v) :: ms).find? (fun m => m.1 == some key) = ms.find? fun m => m.1 == some key :=
    List.find?_cons_of_neg (by rwa [beq_iff_eq])
  rw [last?, last?, List.reverse_append, List.reverse_cons, List.append_assoc, List.find?_append,
    List.singleton_append, passed, List.reverse_append, List.find?_append]

/-- The members of a polygon. -/
theorem ofMembers?_eq_polygon_iff {members : List (Text × Value)}
    {collections : List (Text × Bool)} {rings : List (List Position)} :
    ofMembers? members collections = some (.polygon rings) ↔ hasProperBox members = true ∧
      (last? "type" members).bind Decoder.string = some "Polygon" ∧
      (last? "coordinates" members).bind (Decoder.list (Decoder.list position?)) = some rings := by
  have other {β : Type} (x : Option β) :
      x.map (fun _ => Geometry.other) ≠ some (.polygon rings) := by
    cases x <;> nofun
  unfold ofMembers?
  dsimp only
  cases hbox : hasProperBox members with
  | false => exact ⟨nofun, nofun⟩
  | true =>
    rw [if_neg (by decide)]
    generalize (last? "type" members).bind Decoder.string = name
    split
    · exact ⟨fun h => absurd h (other _), fun h => absurd h.2.1 (by decide)⟩
    · exact ⟨fun h => absurd h (other _), fun h => absurd h.2.1 (by decide)⟩
    · exact ⟨fun h => absurd h (other _), fun h => absurd h.2.1 (by decide)⟩
    · exact ⟨fun h => absurd h (other _), fun h => absurd h.2.1 (by decide)⟩
    · constructor
      · intro h
        obtain ⟨rings', hrings, same⟩ := Option.map_eq_some_iff.mp h
        cases same
        exact ⟨rfl, rfl, hrings⟩
      · rintro ⟨-, -, hrings⟩
        rw [hrings]
        rfl
    · exact ⟨fun h => absurd h (other _), fun h => absurd h.2.1 (by decide)⟩
    · refine ⟨fun h => ?_, fun h => absurd h.2.1 (by decide)⟩
      split_ifs at h
      cases h
    · rename_i not_polygon _ _
      exact ⟨nofun, fun h => absurd h.2.1 not_polygon⟩

/-- A geometry with the coordinates of an outer ring and of holes, among other members. -/
def withRing (front back : List (Text × Value)) (holes ring : List Value) : Value :=
  .object (front ++ (some "coordinates", .array (.array ring :: holes)) :: back)

variable {holes ring : List Value}

/-- Of a polygon with such coordinates the ring is read for itself. -/
theorem ofValue?_withRing_eq_polygon_iff (absent : ∀ m ∈ back, m.1 ≠ some "coordinates")
    {ps : List Position} {hs : List (List Position)} :
    ofValue? (withRing front back holes ring) = some (.polygon (ps :: hs)) ↔
      hasProperBox (front ++ back) = true ∧
        (last? "type" (front ++ back)).bind Decoder.string = some "Polygon" ∧
        ring.mapM position? = some ps ∧ holes.mapM (Decoder.list position?) = some hs := by
  have rings : Decoder.list (Decoder.list position?) (.array (.array ring :: holes)) =
      some (ps :: hs) ↔ ring.mapM position? = some ps ∧
        holes.mapM (Decoder.list position?) = some hs := by
    rw [Decoder.list, mapM_eq_some_iff, List.map_cons, List.map_cons, List.cons.injEq,
      Decoder.list, ← mapM_eq_some_iff]
  rw [withRing, ofValue?, ofMembers?_eq_polygon_iff, hasProperBox, last?_other (by decide),
    last?_other (by decide), last?_middle absent, Option.bind_some, rings]
  rfl

theorem ofValue?_closed (absent : ∀ m ∈ back, m.1 ≠ some "coordinates") {ps : List Position}
    {hs : List (List Position)}
    (h : ofValue? (withRing front back holes ring) = some (.polygon (ps :: hs))) :
    ofValue? (withRing front back holes (ring ++ ring.take 1)) =
      some (.polygon ((ps ++ ps.take 1) :: hs)) := by
  rw [ofValue?_withRing_eq_polygon_iff absent] at h ⊢
  obtain ⟨box, type, positions, holes⟩ := h
  refine ⟨box, type, ?_, holes⟩
  rw [mapM_eq_some_iff] at positions ⊢
  rw [List.map_append, List.map_append, List.map_take, List.map_take, positions]

theorem isDefinite_withRing_iff : (withRing front back holes ring).isDefinite ↔
    (∀ m ∈ front ++ back, m.1.isSome ∧ m.2.isDefinite) ∧
      (∀ v ∈ holes, v.isDefinite) ∧ ∀ v ∈ ring, v.isDefinite := by
  rw [withRing, Value.isDefinite_object_iff, List.forall_mem_append, List.forall_mem_append,
    List.forall_mem_cons, Value.isDefinite_array_iff, List.forall_mem_cons,
    Value.isDefinite_array_iff]
  tauto

theorem depth_withRing_le_iff {n : Nat} : (withRing front back holes ring).depth ≤ n + 3 ↔
    (∀ m ∈ front ++ back, m.2.depth ≤ n + 2) ∧
      (∀ v ∈ holes, v.depth ≤ n + 1) ∧ ∀ v ∈ ring, v.depth ≤ n := by
  rw [withRing, Value.depth_object_le_iff, List.forall_mem_append, List.forall_mem_append,
    List.forall_mem_cons, Value.depth_array_le_iff, List.forall_mem_cons,
    Value.depth_array_le_iff]
  tauto

/-- A text that is read as a whole is so too when its ring is closed. -/
theorem parseWhole?_closed {s s' : String}
    (h : parseWhole? s = some (withRing front back holes ring))
    (h' : parse? s' = some (withRing front back holes (ring ++ ring.take 1))) :
    parseWhole? s' = some (withRing front back holes (ring ++ ring.take 1)) := by
  obtain ⟨-, definite, flat⟩ := parseWhole?_eq_some_iff.mp h
  obtain ⟨others, inHoles, inRing⟩ := isDefinite_withRing_iff.mp definite
  obtain ⟨others', inHoles', inRing'⟩ := (depth_withRing_le_iff (n := 124)).mp flat
  refine parseWhole?_eq_some_iff.mpr ⟨h', ?_, ?_⟩
  · exact isDefinite_withRing_iff.mpr ⟨others, inHoles, forall_mem_closed.mpr inRing⟩
  · exact (depth_withRing_le_iff (n := 124)).mpr
      ⟨others', inHoles', forall_mem_closed.mpr inRing'⟩

end Geometry

namespace Polygon

/-! ## Vertices -/

theorem vertex?_of_position? {v : Value} {xs : Position} (h : Geometry.position? v = some xs) :
    ∃ p, vertex? xs = some p ∧ p.same p = true := by
  obtain ⟨hxs, long⟩ := Option.filter_eq_some_iff.mp h
  cases v with
  | array items =>
    have equal (x : Float) (hx : x ∈ xs) : (x == x) = true := by
      obtain ⟨item, -, hitem⟩ := exists_of_mem_of_mapM_eq_some hxs hx
      exact Decoder.beq_self_of_float hitem
    match xs with
    | [] => cases long
    | [_] => cases long
    | lng :: lat :: rest =>
      refine ⟨⟨lat, lng⟩, rfl, ?_⟩
      rw [Point.same, equal lat (by simp), equal lng (by simp)]
      rfl
  | null | bool | number | text | object => cases hxs

variable {ring : List Value} {ps : List Position}

theorem exists_vertex? (h : ring.mapM Geometry.position? = some ps) : ∀ xs ∈ ps,
    ∃ p, vertex? xs = some p ∧ p.same p = true := by
  intro xs hxs
  obtain ⟨v, -, hv⟩ := exists_of_mem_of_mapM_eq_some h hxs
  exact vertex?_of_position? hv

/-- A ring of positions that is closed is opened again. -/
theorem ofRing_closed (h : ring.mapM Geometry.position? = some ps) :
    ofRing (ps ++ ps.take 1) = ⟨ps.filterMap vertex?⟩ := by
  have vertices : (ps ++ ps.take 1).filterMap vertex? =
      ps.filterMap vertex? ++ (ps.filterMap vertex?).take 1 := by
    cases ps with
    | nil => rfl
    | cons xs ps =>
      obtain ⟨p, hp, -⟩ := exists_vertex? h xs List.mem_cons_self
      rw [List.filterMap_append, List.take_succ_cons, List.take_zero,
        List.filterMap_cons_some hp, List.filterMap_cons_some hp]
      rfl
  have same : ∀ p ∈ (ps.filterMap vertex?).head?, p.same p = true := by
    intro p hp
    obtain ⟨xs, hxs, hvertex⟩ := List.mem_filterMap.mp (List.mem_of_mem_head? hp)
    obtain ⟨p', hp', same⟩ := exists_vertex? h xs hxs
    rwa [Option.some.inj (hvertex.symm.trans hp')]
  rw [ofRing, vertices, openRing_closed same]

/-- A ring of one position, or one whose ends are apart, is read as it is. -/
theorem ofRing_of_apart {ps : List Position} (apart : ps.length = 1 ∨
    ∀ p ∈ (ps.filterMap vertex?).head?, ∀ q ∈ (ps.filterMap vertex?).getLast?, p.same q = false) :
    ofRing ps = ⟨ps.filterMap vertex?⟩ := by
  have short : ps.length = 1 → (ps.filterMap vertex?).length ≤ 1 := fun single =>
    single ▸ List.length_filterMap_le vertex? ps
  rw [ofRing, openRing_of_apart (apart.imp_left short)]

theorem ofGeoJson_eq {s : String} {v : Value} (parsed : parseWhole? s = some v)
    {ps : List Position} {hs : List (List Position)}
    (polygon : Geometry.ofValue? v = some (.polygon (ps :: hs))) :
    ofGeoJson s = .ok (ofRing ps) := by
  rw [ofGeoJson, parsed, Option.bind_some, polygon]
  rfl

/-! ## Written polygons -/

/-- The vertex as which a written vertex is read. -/
def reread? (p : Point Float) : Option (Point Float) := do
  let lng ← Decoder.float (.ofFloat p.lng)
  let lat ← Decoder.float (.ofFloat p.lat)
  some ⟨lat, lng⟩

/-- The position of a vertex as a JSON value. -/
def position (p : Point Float) : Value := .array [.ofFloat p.lng, .ofFloat p.lat]

theorem toGeoJsonValue_eq (g : Polygon Float) : g.toGeoJsonValue =
    Geometry.withRing [(some "type", .ofString "Polygon")] [] []
      (g.points.map position ++ (g.points.map position).take 1) := by
  rw [toGeoJsonValue, closedRing, List.map_append, List.map_take]
  rfl

theorem position?_position {p q : Point Float} (h : reread? p = some q) :
    Geometry.position? (position p) = some [q.lng, q.lat] := by
  obtain ⟨lng, hlng, h⟩ := Option.bind_eq_some_iff.mp h
  obtain ⟨lat, hlat, h⟩ := Option.bind_eq_some_iff.mp h
  cases h
  rw [Geometry.position?, position, Decoder.list, List.mapM_cons, List.mapM_cons, List.mapM_nil,
    hlng, hlat]
  rfl

theorem depth_position (p : Point Float) : (position p).depth ≤ 1 := by
  rw [position, Value.depth_array_le_iff, List.forall_mem_cons, List.forall_mem_singleton,
    Value.depth_ofFloat, Value.depth_ofFloat]
  exact ⟨Nat.le_refl 0, Nat.le_refl 0⟩

theorem isDefinite_position {p q : Point Float} (h : reread? p = some q) :
    (position p).isDefinite := by
  obtain ⟨lng, hlng, h⟩ := Option.bind_eq_some_iff.mp h
  obtain ⟨lat, hlat, -⟩ := Option.bind_eq_some_iff.mp h
  rw [position, Value.isDefinite_array_iff, List.forall_mem_cons, List.forall_mem_singleton]
  exact ⟨Decoder.isDefinite_of_float hlng, Decoder.isDefinite_of_float hlat⟩

theorem parseWhole?_toGeoJson {g : Polygon Float} {qs : List (Point Float)}
    (h : g.points.mapM reread? = some qs) : parseWhole? g.toGeoJson = some g.toGeoJsonValue := by
  refine parseWhole?_render ?_ ?_
  · rw [toGeoJsonValue_eq, Geometry.isDefinite_withRing_iff]
    refine ⟨by decide, fun _ hv => absurd hv List.not_mem_nil, forall_mem_closed.mpr ?_⟩
    intro v hv
    obtain ⟨p, hp, rfl⟩ := List.mem_map.mp hv
    obtain ⟨q, -, hq⟩ := exists_of_mapM_eq_some h hp
    exact isDefinite_position hq
  · rw [toGeoJsonValue_eq]
    refine (Geometry.depth_withRing_le_iff (n := 124)).mpr
      ⟨by decide, fun _ hv => absurd hv List.not_mem_nil, forall_mem_closed.mpr ?_⟩
    intro v hv
    obtain ⟨p, hp, rfl⟩ := List.mem_map.mp hv
    exact Nat.le_trans (depth_position p) (by decide)

/-- A written polygon is read with all its vertices, each as what its numbers are read as. -/
theorem ofGeoJson_toGeoJson {g : Polygon Float} {qs : List (Point Float)}
    (h : g.points.mapM reread? = some qs) : ofGeoJson g.toGeoJson = .ok ⟨qs⟩ := by
  have positions : (g.points.map position).mapM Geometry.position? =
      some (qs.map fun q => [q.lng, q.lat]) := by
    rw [List.mapM_map]
    exact mapM_eq_some_of_follows h fun p q => position?_position
  have vertices : (qs.map fun q => [q.lng, q.lat]).filterMap vertex? = qs := by
    rw [List.filterMap_map]
    exact List.filterMap_some
  have open_polygon : Geometry.ofValue? (Geometry.withRing [(some "type", .ofString "Polygon")] []
      [] (g.points.map position)) = some (.polygon [qs.map fun q => [q.lng, q.lat]]) := by
    rw [Geometry.ofValue?_withRing_eq_polygon_iff (by simp)]
    exact ⟨rfl, rfl, positions, rfl⟩
  have polygon := Geometry.ofValue?_closed (by simp) open_polygon
  rw [← toGeoJsonValue_eq] at polygon
  rw [ofGeoJson_eq (parseWhole?_toGeoJson h) polygon, ofRing_closed positions, vertices]

/-- **Rings are closed when they are written and opened when they are read.**  A polygon with
finite coordinates is read back from its text, if each of its coordinates is read as it is printed.
An outer ring that has one position, or whose last position differs from the first one as a number,
is read as the same polygon with and without its first position at the end, whatever its positions
hold besides, and whatever holes and other members there are. -/
theorem rings_close_and_open :
    (∀ g : Polygon Float, (∀ p ∈ g.points, p.lat.isFinite ∧ p.lng.isFinite) →
      (∀ p ∈ g.points, ∀ x ∈ [p.lat, p.lng], x.isFinite → Decoder.float (.ofFloat x) = some x) →
      ofGeoJson g.toGeoJson = .ok g) ∧
    (∀ (front back : List (Text × Value)) (holes ring : List Value) (s s' : String)
      (ps : List Position) (hs : List (List Position)),
      (∀ m ∈ back, m.1 ≠ some "coordinates") →
      parseWhole? s = some (Geometry.withRing front back holes ring) →
      parse? s' = some (Geometry.withRing front back holes (ring ++ ring.take 1)) →
      Geometry.ofValue? (Geometry.withRing front back holes ring) = some (.polygon (ps :: hs)) →
      (ps.length = 1 ∨ ∀ p ∈ (ps.filterMap vertex?).head?, ∀ q ∈ (ps.filterMap vertex?).getLast?,
        p.same q = false) →
      ofGeoJson s = .ok ⟨ps.filterMap vertex?⟩ ∧ ofGeoJson s' = .ok ⟨ps.filterMap vertex?⟩) := by
  constructor
  · intro g finite inverse
    have reread : ∀ p ∈ g.points, reread? p = some (id p) := by
      intro p hp
      obtain ⟨lat, lng⟩ := finite p hp
      rw [reread?, inverse p hp p.lng (by simp) lng, inverse p hp p.lat (by simp) lat]
      rfl
    have points := mapM_eq_some_map reread
    rw [List.map_id] at points
    exact ofGeoJson_toGeoJson points
  · intro front back holes ring s s' ps hs absent parsed parsed' polygon apart
    have positions : ring.mapM Geometry.position? = some ps :=
      ((Geometry.ofValue?_withRing_eq_polygon_iff absent).mp polygon).2.2.1
    constructor
    · rw [ofGeoJson_eq parsed polygon, ofRing_of_apart apart]
    · rw [ofGeoJson_eq (Geometry.parseWhole?_closed parsed parsed')
        (Geometry.ofValue?_closed absent polygon), ofRing_closed positions]

/-- A square is read back, and so is a triangle, open or closed, whose first position has a height,
which has a hole and a member of no meaning. -/
theorem square_and_triangle_are_read :
    let number (s : String) : Value := .number s
    let ring : List Value := [.array [number "0", number "0", number "7"],
      .array [number "10", number "0"], .array [number "10", number "10.5"]]
    let text (ring : List Value) : String :=
      (Geometry.withRing [(some "type", .ofString "Polygon")] [(some "note", .null)]
        [.array [.array [number "9", number "1"]]] ring).render
    ofGeoJson sampleSquare.toGeoJson = .ok sampleSquare ∧
      ofGeoJson (text ring) = .ok ⟨[⟨0, 0⟩, ⟨0, 10⟩, ⟨10.5, 10⟩]⟩ ∧
      ofGeoJson (text (ring ++ ring.take 1)) = .ok ⟨[⟨0, 0⟩, ⟨0, 10⟩, ⟨10.5, 10⟩]⟩ := by
  intro number ring text
  refine ⟨rings_close_and_open.1 sampleSquare (by decide +kernel) (by decide +kernel), ?_⟩
  have polygon : Geometry.ofValue? (Geometry.withRing [(some "type", .ofString "Polygon")]
      [(some "note", .null)] [.array [.array [number "9", number "1"]]] ring) =
      some (.polygon [[[0, 0, 7], [10, 0], [10, 10.5]], [[9, 1]]]) := by
    rw [Geometry.ofValue?_withRing_eq_polygon_iff (by decide)]
    decide +kernel
  exact rings_close_and_open.2 _ _ _ ring _ _ _ _ (by decide)
    (parseWhole?_render (by decide +kernel) (by decide)) (parse?_render (by decide +kernel))
    polygon (.inr (by decide +kernel))

end Polygon

end GeoDispatch

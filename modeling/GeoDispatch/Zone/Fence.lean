import GeoDispatch.Zone.GeoJson

/-!
# Geofences

A geofence is a named polygon of one of four kinds, with notes under keys.  A collection
keeps geofences in the order in which they were added; identifiers may repeat, and `get?`
and `remove` act on the oldest fence of an identifier.
-/

namespace GeoDispatch

open Json

/-- What a geofence is for. -/
inductive FenceKind where
  | serviceArea | surgeZone | noPickupZone | airport
deriving DecidableEq, Repr

namespace FenceKind

/-- All kinds. -/
def all : List FenceKind := [serviceArea, surgeZone, noPickupZone, airport]

/-- The name of a kind. -/
def name : FenceKind → String
  | serviceArea => "service_area"
  | surgeZone => "surge_zone"
  | noPickupZone => "no_pickup_zone"
  | airport => "airport"

/-- The kind with a name. -/
def ofName? (s : String) : Option FenceKind := all.find? fun k => k.name == s

@[simp] theorem ofName?_name (k : FenceKind) : ofName? k.name = some k := by
  cases k <;> decide

/-- The kind with a name; another name is an error. -/
def parse (s : String) : Except GeoError FenceKind :=
  match ofName? s with
  | some k => .ok k
  | none => .error (.invalidGeofenceKind s)

/-- The name of a kind in messages. -/
def label : FenceKind → String
  | serviceArea => "ServiceArea"
  | surgeZone => "SurgeZone"
  | noPickupZone => "NoPickupZone"
  | airport => "Airport"

end FenceKind

/-- A named polygon. -/
structure Fence where
  id : String
  name : String
  kind : FenceKind
  polygon : Polygon Float
  /-- Notes, by increasing keys. -/
  metadata : List (String × String)

namespace Fence

/-- Puts a note under a key into notes by increasing keys, in the place of an older one. -/
def insertNote (key value : String) : List (String × String) → List (String × String)
  | [] => [(key, value)]
  | (k, v) :: notes =>
    if key < k then (key, value) :: (k, v) :: notes
    else if key = k then (key, value) :: notes
    else (k, v) :: insertNote key value notes

/-- Notes by increasing keys, the last one of each key. -/
def notesOf (pairs : List (String × String)) : List (String × String) :=
  pairs.foldl (fun notes p => insertNote p.1 p.2 notes) []

/-- The fence with one more note. -/
def withMetadata (f : Fence) (key value : String) : Fence :=
  { f with metadata := insertNote key value f.metadata }

/-- Whether a point lies inside. -/
def contains (f : Fence) (p : Point Float) : Bool := f.polygon.contains p

end Fence

/-- Geofences, in the order in which they were added. -/
structure FenceCollection where
  fences : List Fence

namespace FenceCollection

/-- The collection without fences. -/
def empty : FenceCollection := ⟨[]⟩

/-- Adds a fence. -/
def add (c : FenceCollection) (f : Fence) : FenceCollection := ⟨c.fences ++ [f]⟩

/-- The oldest fence of an identifier. -/
def get? (c : FenceCollection) (id : String) : Option Fence :=
  c.fences.find? fun f => f.id == id

/-- Takes out the oldest fence of an identifier. -/
def remove (c : FenceCollection) (id : String) : Option Fence × FenceCollection :=
  (c.get? id, ⟨c.fences.eraseP fun f => f.id == id⟩)

/-- The number of fences. -/
def size (c : FenceCollection) : Nat := c.fences.length

/-- Whether there are no fences. -/
def isEmpty (c : FenceCollection) : Bool := c.fences.isEmpty

/-- The fences around a point. -/
def containing (c : FenceCollection) (p : Point Float) : List Fence :=
  c.fences.filter fun f => f.contains p

/-- The fences of a kind around a point. -/
def containingOfKind (c : FenceCollection) (p : Point Float) (k : FenceKind) : List Fence :=
  c.fences.filter fun f => f.kind == k && f.contains p

/-- Whether some service area lies around a point. -/
def inServiceArea (c : FenceCollection) (p : Point Float) : Bool :=
  c.fences.any fun f => f.kind == .serviceArea && f.contains p

end FenceCollection

instance : Codec FenceKind :=
  ⟨fun k => .ofString k.name, Decoder.alternative FenceKind.ofName?⟩

/-- Reads the notes of a fence; a fence without them has none. -/
def Fence.metadata? : Option Value → Option (List (String × String))
  | some v => (Decoder.stringMap v).map notesOf
  | none => some []

instance : Codec Fence where
  encode f := .ofMembers
    [("id", .ofString f.id), ("name", .ofString f.name), ("kind", Codec.encode f.kind),
      ("polygon", Codec.encode f.polygon),
      ("metadata", .ofMembers (f.metadata.map fun m => (m.1, .ofString m.2)))]
  decode? v := do
    match ← Decoder.fields ["id", "name", "kind", "polygon", "metadata"] v with
    | [id, name, kind, polygon, metadata] =>
      return { id := ← Codec.field? String id
               name := ← Codec.field? String name
               kind := ← Codec.field? FenceKind kind
               polygon := ← Codec.field? (Polygon Float) polygon
               metadata := ← Fence.metadata? metadata }
    | _ => none

instance : Codec FenceCollection where
  encode c := .ofMembers [("geofences", Codec.encode c.fences)]
  decode? v := do
    match ← Decoder.fields ["geofences"] v with
    | [fences] => return ⟨← Codec.field? (List Fence) fences⟩
    | _ => none

end GeoDispatch

import ServiceIdl.Model.Options
import ServiceIdl.Proofs.Render.Fields

/-!
# Places in a model

Everything with a name in a model has a location, and so has every diagnostic;
`Resolution.locations` are all of them. What is known about a resolution is said part by
part: its locations are as they should be, and its integers have the bits that such
integers of a document have (`Resolution.IsPlaced`). What holds of every part then holds of
all locations, and of the data that is written.
-/

namespace ServiceIdl

/-! ## All locations -/

/-- The places a method names: its own and those of its deprecation, parameters and return type. -/
def Method.locations (m : Method) : List Location :=
  m.location :: (m.deprecated.toList.map Deprecation.location ++
    (m.parameters.map Member.location ++ m.returnType.toList.map ReturnType.location))

/-- The places of an interface: its own and those of its HTTP methods and of its methods. -/
def Interface.locations (i : Interface) : List Location :=
  i.location :: (i.httpPaths.flatMap (fun p => p.methods.map HttpMethod.location) ++
    i.methods.flatMap Method.locations)

/-- The places of a structure, of its deprecation and of its properties. -/
def StructureType.locations (t : StructureType) : List Location :=
  t.location :: (t.deprecated.toList.map Deprecation.location ++ t.properties.map Member.location)

/-- The places of an enum value and of its deprecation. -/
def EnumValue.locations (v : EnumValue) : List Location :=
  v.location :: v.deprecated.toList.map Deprecation.location

/-- The places of an enum, of its values and of its deprecation. -/
def EnumType.locations (e : EnumType) : List Location :=
  e.location ::
    (e.deprecated.toList.map Deprecation.location ++ e.values.flatMap EnumValue.locations)

/-- Every place that a model names, in the order of its lists. -/
def ServiceModel.locations (m : ServiceModel) : List Location :=
  m.interfaces.flatMap Interface.locations ++ (m.types.flatMap StructureType.locations ++
    (m.enums.flatMap EnumType.locations ++ m.unions.flatMap StructureType.locations))

/-- The places of everything in the model, and of all diagnostics. -/
def Resolution.locations (r : Resolution) : List Location :=
  r.model.locations ++ r.diagnostics.map Diagnostic.location

/-! ## What is known about the parts -/

section

variable (place : Location → Prop)

/-- The member is at a place, and the bounds of its constraints have 64 signed bits. -/
structure Member.IsPlaced (m : Member) : Prop where
  rules : ∀ c ∈ m.rules, c.datum.Fits
  location : place m.location

/-- The return type is at a place, and the bounds of its constraints have 64 signed bits. -/
structure ReturnType.IsPlaced (t : ReturnType) : Prop where
  rules : ∀ c ∈ t.rules, c.datum.Fits
  location : place t.location

/-- Everything in the method is at a place. -/
structure Method.IsPlaced (m : Method) : Prop where
  deprecated : ∀ d, m.deprecated = some d → place d.location
  parameters : ∀ p ∈ m.parameters, p.IsPlaced place
  returnType : ∀ t, m.returnType = some t → t.IsPlaced place
  location : place m.location

/-- The method is at a place, and its code has 16 bits unless it is the default. -/
structure HttpMethod.IsPlaced (defaultCode : Nat) (m : HttpMethod) : Prop where
  code : m.successCode = defaultCode ∨ m.successCode < 0x10000
  location : place m.location

/-- Everything in the interface is at a place, and its codes have 16 bits unless they are the
default. -/
structure Interface.IsPlaced (defaultCode : Nat) (i : Interface) : Prop where
  paths : ∀ p ∈ i.httpPaths, ∀ m ∈ p.methods, m.IsPlaced place defaultCode
  methods : ∀ m ∈ i.methods, m.IsPlaced place
  location : place i.location

/-- Everything in the structure is at a place. -/
structure StructureType.IsPlaced (t : StructureType) : Prop where
  deprecated : ∀ d, t.deprecated = some d → place d.location
  properties : ∀ p ∈ t.properties, p.IsPlaced place
  location : place t.location

/-- The value is at a place, and if it is an integer it has 64 signed bits. -/
structure EnumValue.IsPlaced (v : EnumValue) : Prop where
  value : ∀ l, v.value = some l → l.datum.Fits
  deprecated : ∀ d, v.deprecated = some d → place d.location
  location : place v.location

/-- Everything in the enum is at a place. -/
structure EnumType.IsPlaced (e : EnumType) : Prop where
  deprecated : ∀ d, e.deprecated = some d → place d.location
  values : ∀ v ∈ e.values, v.IsPlaced place
  location : place e.location

/-- Everything in the model is at a place, and its version has 32 bits unless it is the
default. -/
structure ServiceModel.IsPlaced (options : Options) (m : ServiceModel) : Prop where
  version : m.majorVersion = options.defaultMajorVersion ∨ m.majorVersion < 0x100000000
  interfaces : ∀ i ∈ m.interfaces, i.IsPlaced place options.defaultSuccessCode
  types : ∀ t ∈ m.types, t.IsPlaced place
  enums : ∀ e ∈ m.enums, e.IsPlaced place
  unions : ∀ t ∈ m.unions, t.IsPlaced place

/-- Everything in the model is at a place, and so are the diagnostics. -/
structure Resolution.IsPlaced (options : Options) (r : Resolution) : Prop where
  model : r.model.IsPlaced place options
  diagnostics : ∀ d ∈ r.diagnostics, place d.location

end

/-! ## What holds of all locations -/

variable {place : Location → Prop}

theorem Deprecation.forall_location {d? : Option Deprecation}
    (deprecated : ∀ d, d? = some d → place d.location) :
    ∀ l ∈ d?.toList.map Deprecation.location, place l :=
  List.forall_mem_map.mpr fun d member => deprecated d (Option.mem_toList.mp member)

theorem Member.forall_location {ms : List Member} (placed : ∀ m ∈ ms, m.IsPlaced place) :
    ∀ l ∈ ms.map Member.location, place l :=
  List.forall_mem_map.mpr fun m member => (placed m member).location

theorem Method.IsPlaced.forall_locations {m : Method} (placed : m.IsPlaced place) :
    ∀ l ∈ m.locations, place l := by
  have returnType : ∀ l ∈ m.returnType.toList.map ReturnType.location, place l :=
    List.forall_mem_map.mpr fun t member =>
      (placed.returnType t (Option.mem_toList.mp member)).location
  refine List.forall_mem_cons.mpr ⟨placed.location, List.forall_mem_append.mpr ⟨?_, ?_⟩⟩
  · exact Deprecation.forall_location placed.deprecated
  · exact List.forall_mem_append.mpr ⟨Member.forall_location placed.parameters, returnType⟩

theorem Interface.IsPlaced.forall_locations {defaultCode : Nat} {i : Interface}
    (placed : i.IsPlaced place defaultCode) : ∀ l ∈ i.locations, place l := by
  refine List.forall_mem_cons.mpr ⟨placed.location, List.forall_mem_append.mpr ⟨?_, ?_⟩⟩
  · refine List.forall_mem_flatMap.mpr fun p present => List.forall_mem_map.mpr ?_
    exact fun m member => (placed.paths p present m member).location
  · exact List.forall_mem_flatMap.mpr fun m member => (placed.methods m member).forall_locations

theorem StructureType.IsPlaced.forall_locations {t : StructureType} (placed : t.IsPlaced place) :
    ∀ l ∈ t.locations, place l :=
  List.forall_mem_cons.mpr ⟨placed.location, List.forall_mem_append.mpr
    ⟨Deprecation.forall_location placed.deprecated, Member.forall_location placed.properties⟩⟩

theorem EnumValue.IsPlaced.forall_locations {v : EnumValue} (placed : v.IsPlaced place) :
    ∀ l ∈ v.locations, place l :=
  List.forall_mem_cons.mpr ⟨placed.location, Deprecation.forall_location placed.deprecated⟩

theorem EnumType.IsPlaced.forall_locations {e : EnumType} (placed : e.IsPlaced place) :
    ∀ l ∈ e.locations, place l := by
  refine List.forall_mem_cons.mpr ⟨placed.location, List.forall_mem_append.mpr ⟨?_, ?_⟩⟩
  · exact Deprecation.forall_location placed.deprecated
  · exact List.forall_mem_flatMap.mpr fun v member => (placed.values v member).forall_locations

/-- The structured form gives the property for each place of the flat list. -/
theorem Resolution.IsPlaced.forall_locations {options : Options} {r : Resolution}
    (placed : r.IsPlaced place options) : ∀ l ∈ r.locations, place l := by
  have model := placed.model
  refine List.forall_mem_append.mpr ⟨List.forall_mem_append.mpr ⟨?_, ?_⟩, ?_⟩
  · exact List.forall_mem_flatMap.mpr fun i member =>
      (model.interfaces i member).forall_locations
  · refine List.forall_mem_append.mpr ⟨?_, List.forall_mem_append.mpr ⟨?_, ?_⟩⟩
    · exact List.forall_mem_flatMap.mpr fun t member => (model.types t member).forall_locations
    · exact List.forall_mem_flatMap.mpr fun e member => (model.enums e member).forall_locations
    · exact List.forall_mem_flatMap.mpr fun t member => (model.unions t member).forall_locations
  · exact List.forall_mem_map.mpr placed.diagnostics

/-! ## Data with integers of 64 signed bits -/

/-- The numbers of the place have 64 signed bits. -/
def Location.Fits (location : Location) : Prop := location.datum.Fits

/-- The numbers among the options have the bits that such numbers of a document have. -/
structure Options.Fits (options : Options) : Prop where
  code : options.defaultSuccessCode < 0x10000
  version : options.defaultMajorVersion < 0x100000000

theorem Deprecation.fits_of_placed {d? : Option Deprecation}
    (deprecated : ∀ d, d? = some d → d.location.Fits) : ∀ d, d? = some d → d.datum.Fits :=
  fun d found => Deprecation.fits_datum (deprecated d found)

theorem Member.IsPlaced.fits {m : Member} (placed : m.IsPlaced Location.Fits) : m.datum.Fits :=
  Member.fits_datum placed.rules placed.location

theorem Method.IsPlaced.fits {m : Method} (placed : m.IsPlaced Location.Fits) : m.datum.Fits :=
  Method.fits_datum (Deprecation.fits_of_placed placed.deprecated)
    (fun p member => (placed.parameters p member).fits)
    (fun t found => ReturnType.fits_datum (placed.returnType t found).rules
      (placed.returnType t found).location)
    placed.location

/-- A verb with a code of sixteen bits has a datum that fits. -/
theorem HttpMethod.IsPlaced.fits {defaultCode : Nat} (small : defaultCode < 0x10000)
    {m : HttpMethod} (placed : m.IsPlaced Location.Fits defaultCode) : m.datum.Fits := by
  refine HttpMethod.fits_datum ?_ placed.location
  rcases placed.code with same | bounded
  · rwa [same]
  · exact bounded

theorem Interface.IsPlaced.fits {defaultCode : Nat} (small : defaultCode < 0x10000)
    {i : Interface} (placed : i.IsPlaced Location.Fits defaultCode) : i.datum.Fits := by
  refine Interface.fits_datum ?_ (fun m member => (placed.methods m member).fits) placed.location
  intro p present
  exact HttpPath.fits_datum fun m member => (placed.paths p present m member).fits small

theorem StructureType.IsPlaced.fits {t : StructureType} (placed : t.IsPlaced Location.Fits) :
    t.datum.Fits :=
  StructureType.fits_datum (Deprecation.fits_of_placed placed.deprecated)
    (fun p member => (placed.properties p member).fits) placed.location

theorem EnumValue.IsPlaced.fits {v : EnumValue} (placed : v.IsPlaced Location.Fits) :
    v.datum.Fits :=
  EnumValue.fits_datum placed.value (Deprecation.fits_of_placed placed.deprecated) placed.location

theorem EnumType.IsPlaced.fits {e : EnumType} (placed : e.IsPlaced Location.Fits) :
    e.datum.Fits :=
  EnumType.fits_datum (Deprecation.fits_of_placed placed.deprecated)
    (fun v member => (placed.values v member).fits) placed.location

/-- A placed model has no integer beyond 64 bits in its datum. -/
theorem ServiceModel.IsPlaced.fits {options : Options} (small : options.Fits) {m : ServiceModel}
    (placed : m.IsPlaced Location.Fits options) : m.datum.Fits := by
  refine ServiceModel.fits_datum ?_ (fun i member => (placed.interfaces i member).fits small.code)
    (fun t member => (placed.types t member).fits) (fun e member => (placed.enums e member).fits)
    (fun t member => (placed.unions t member).fits)
  rcases placed.version with same | bounded
  · rw [same]
    exact small.version
  · exact bounded

/-- All integers in the data of a resolution have 64 signed bits, if those of its places and
options have. -/
theorem Resolution.IsPlaced.fits {options : Options} (small : options.Fits) {r : Resolution}
    (placed : r.IsPlaced Location.Fits options) : r.datum.Fits :=
  Resolution.fits_datum (placed.model.fits small) fun d member =>
    Diagnostic.fits_datum (placed.diagnostics d member)

end ServiceIdl

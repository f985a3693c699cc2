import Mathlib.Data.List.Induction
import OcreRuntime.OcreApi.SensorDiscovery

/-!
# The sensor functions as a directory

To a module the sensors are a list of named devices with their channels: the ID of a sensor is
its place, a name stands for the first sensor that has it. What a run of `ocre_sensors_init` and
`ocre_sensors_discover` leaves is such a list, and every query answers from it alone.
-/

namespace OcreRuntime

variable {cfg : SensorConfig}

/-- The buffer of a call of `ocre_sensors_get_name` has the size that is given for it. -/
def SensorQuery.Fits : SensorQuery → Prop
  | ocreSensorsGetName _ buffer bufferSize => ∀ bytes ∈ buffer, bufferSize ≤ bytes.length
  | _ => True

abbrev SensorDirectory := List SensorView

namespace SensorDirectory

variable (d : SensorDirectory) (calls : DeviceCalls)

/-- The sensor of an ID. -/
def sensor (id : Int) : Option SensorView :=
  if id < 0 then none else d[id.toNat]?

/-- The ID of the first sensor with a name. -/
def idOf (name : Option CString) : Option ℕ :=
  name.bind fun name ↦ d.findIdx? fun sensor ↦ sensor.name = name

def ready (id : Int) : Int :=
  (d.sensor id).elim (-22) fun sensor ↦ if calls.ready sensor.device then 0 else -19

def channelType (id channelIndex : Int) : Int :=
  (d.sensor id).elim (-22) fun sensor ↦
    if channelIndex < 0 then -22
    else (sensor.channels[channelIndex.toNat]?).elim (-22) fun channel ↦ channel

def reading (id channelType : Int) : SensorReading :=
  (d.sensor id).elim (.error (-22)) fun sensor ↦
    let r := calls.channelGet sensor.device channelType
    if calls.sampleFetch sensor.device < 0 ∨ r.1 < 0 then .error (-5) else .value r.2

/-- A name with its NUL, and zeros up to the size of the buffer. -/
def nameInto (id : Int) (buffer : Option (List UInt8)) (bufferSize : Int) : SensorAnswer :=
  match d.sensor id, buffer with
  | some sensor, some buffer =>
      if sensor.name.length ≥ bufferSize then .name (-28) (some buffer)
      else .name sensor.name.length (some (sensor.name ++
        List.replicate (bufferSize.toNat - sensor.name.length) 0 ++ buffer.drop bufferSize.toNat))
  | _, buffer => .name (-22) buffer

def answer : SensorQuery → SensorAnswer
  | .ocreSensorsOpen id => .int (d.ready calls id)
  | .ocreSensorsGetHandle id => .int ((d.sensor id).elim (-22) fun _ ↦ id)
  | .ocreSensorsGetName id buffer bufferSize => d.nameInto id buffer bufferSize
  | .ocreSensorsGetChannelCount id =>
      .int ((d.sensor id).elim (-22) fun sensor ↦ sensor.channels.length)
  | .ocreSensorsGetChannelType id channelIndex => .int (d.channelType id channelIndex)
  | .ocreSensorsRead id channelType => .reading (d.reading calls id channelType)
  | .ocreSensorsOpenByName name => .int ((d.idOf name).elim (-2) fun id ↦ d.ready calls id)
  | .ocreSensorsGetHandleByName name => .int ((d.idOf name).elim (-2) fun id ↦ id)
  | .ocreSensorsGetChannelCountByName name => .int ((d.idOf name).elim (-2) fun id ↦
      (d.sensor id).elim (-22) fun sensor ↦ sensor.channels.length)
  | .ocreSensorsGetChannelTypeByName name channelIndex =>
      .int ((d.idOf name).elim (-2) fun id ↦ d.channelType id channelIndex)
  | .ocreSensorsReadByName name channelType =>
      .reading ((d.idOf name).elim (.error (-2)) fun id ↦ d.reading calls id channelType)
  | .ocreSensorsGetList nameList maxNames =>
      if ¬ nameList ∨ maxNames ≤ 0 then .list (-22) []
      else
        let names := (d.map SensorView.name).take maxNames.toNat
        .list names.length names

/-- What a call that writes the table makes of the list. -/
def perform (cfg : SensorConfig) (_ : SensorDirectory) : SensorsCall → SensorDirectory
  | .init => []
  | .discover devices => SensorTable.keptSensors cfg (devices.getD [])

end SensorDirectory

/-- `strncpy` and the NUL behind it, in a buffer that is large enough. -/
theorem strncpy_set {buffer : List UInt8} {name : CString} {n : ℕ} (hn : n ≤ buffer.length)
    (hname : name.length < n) :
    (strncpy buffer name (n - 1)).set (n - 1) 0 =
      name ++ List.replicate (n - name.length) 0 ++ buffer.drop n := by
  obtain ⟨c, hc⟩ : ∃ c, buffer.drop (n - 1) = c :: buffer.drop n := by
    refine ⟨buffer[n - 1], ?_⟩
    rw [List.drop_eq_getElem_cons (by omega), Nat.sub_add_cancel (by omega)]
  have hlength : (name.take (n - 1) ++ List.replicate (n - 1 - name.length) 0).length = n - 1 := by
    rw [List.length_append, List.length_take, List.length_replicate]
    omega
  have hzeros : List.replicate (n - name.length) (0 : UInt8) =
      List.replicate (n - 1 - name.length) 0 ++ [0] := by
    rw [← List.replicate_succ']
    congr 1
    omega
  rw [strncpy, hc, List.set_append_right _ _ hlength.le, hlength, Nat.sub_self,
    List.set_cons_zero, hzeros, List.take_of_length_le (by omega)]
  simp

namespace SensorTable

variable {t : SensorTable cfg} {calls : DeviceCalls}

/-- An ID is the place of a sensor in the table and in the list, or in neither. -/
theorem sensorAt_cases (h : t.Sound) (id : Int) :
    (t.sensorAt id = none ∧ SensorDirectory.sensor t.visible id = none) ∨
      ∃ (i : ℕ) (sensor : OcreSensorInternal cfg), id = i ∧ i < t.sensorCount ∧
        t.sensorAt id = some sensor ∧ t.sensors[i]? = some sensor ∧ sensor.Listed i ∧
        SensorDirectory.sensor t.visible id = some sensor.view := by
  by_cases hid : id < 0 ∨ id ≥ t.sensorCount
  · refine .inl ⟨sensorAt_eq_none hid, ?_⟩
    rw [SensorDirectory.sensor]
    split
    · rfl
    · rw [List.getElem?_eq_none]
      rw [length_visible]
      omega
  · obtain ⟨i, rfl⟩ := Int.eq_ofNat_of_zero_le (by omega : 0 ≤ id)
    obtain ⟨sensor, hsensor, helement, hlisted, hview⟩ :=
      exists_sensorAt h (by omega : i < t.sensorCount)
    refine .inr ⟨i, sensor, rfl, by omega, hsensor, helement, hlisted, ?_⟩
    rw [SensorDirectory.sensor, if_neg (by omega), Int.toNat_natCast, hview]

theorem ocreSensorsOpen_eq (h : t.Sound) (id : Int) :
    t.ocreSensorsOpen calls id = SensorDirectory.ready t.visible calls id := by
  rcases sensorAt_cases h id with ⟨hnone, hnone'⟩ | ⟨i, sensor, rfl, -, hsensor, -, -, hview⟩
  · simp [ocreSensorsOpen, SensorDirectory.ready, hnone, hnone']
  · rw [ocreSensorsOpen, SensorDirectory.ready, hsensor, hview, Option.elim_some]
    exact ite_not ..

theorem ocreSensorsGetName_eq (h : t.Sound) (id : Int) {buffer : Option (List UInt8)}
    {bufferSize : Int} (hfits : ∀ bytes ∈ buffer, bufferSize ≤ bytes.length) :
    SensorAnswer.name (t.ocreSensorsGetName id buffer bufferSize).1
        (t.ocreSensorsGetName id buffer bufferSize).2 =
      SensorDirectory.nameInto t.visible id buffer bufferSize := by
  rcases sensorAt_cases h id with ⟨hnone, hnone'⟩ | ⟨i, sensor, rfl, -, hsensor, -, -, hview⟩
  · simp [ocreSensorsGetName, SensorDirectory.nameInto, hnone, hnone']
  · cases buffer with
    | none => simp [ocreSensorsGetName, SensorDirectory.nameInto, hsensor, hview]
    | some bytes =>
        have hsize := hfits bytes rfl
        have hname : sensor.view.name = sensor.name := rfl
        by_cases hlong : (sensor.name.length : Int) ≥ bufferSize
        · simp [ocreSensorsGetName, SensorDirectory.nameInto, hsensor, hview, hname, hlong]
        · simp only [ocreSensorsGetName, SensorDirectory.nameInto, hsensor, hview, hname,
            if_neg hlong]
          have hminus : (bufferSize - 1).toNat = bufferSize.toNat - 1 := by omega
          rw [hminus, strncpy_set (by omega) (by omega)]

theorem ocreSensorsGetChannelType_eq (h : t.Sound) (id channelIndex : Int) :
    t.ocreSensorsGetChannelType id channelIndex =
      SensorDirectory.channelType t.visible id channelIndex := by
  rcases sensorAt_cases h id with
    ⟨hnone, hnone'⟩ | ⟨i, sensor, rfl, -, hsensor, -, hlisted, hview⟩
  · simp [ocreSensorsGetChannelType, SensorDirectory.channelType, hnone, hnone']
  · rw [ocreSensorsGetChannelType, SensorDirectory.channelType, hsensor, hview, Option.elim_some]
    have hcount := hlisted.numChannels
    dsimp only
    by_cases hnegative : channelIndex < 0
    · rw [dif_pos (.inl hnegative), if_pos hnegative]
    rw [if_neg hnegative]
    by_cases hindex : channelIndex ≥ sensor.info.numChannels
    · rw [dif_pos (.inr hindex), List.getElem?_eq_none (by omega), Option.elim_none]
    · have hlt : channelIndex.toNat < sensor.info.numChannels.toNat := by omega
      have hchannel : sensor.view.channels[channelIndex.toNat]? =
          sensor.info.channels[channelIndex.toNat]? :=
        List.getElem?_take_of_lt hlt
      have hinside := sensor.info.lt_length_channels
        (by omega : (channelIndex.toNat : Int) < sensor.info.numChannels)
      rw [dif_neg (by omega), hchannel, List.getElem?_eq_getElem hinside]
      rfl

theorem ocreSensorsRead_eq (h : t.Sound) (id channelType : Int) :
    t.ocreSensorsRead calls id channelType =
      SensorDirectory.reading t.visible calls id channelType := by
  rcases sensorAt_cases h id with ⟨hnone, hnone'⟩ | ⟨i, sensor, rfl, -, hsensor, -, -, hview⟩
  · simp [ocreSensorsRead, SensorDirectory.reading, hnone, hnone']
  · rw [ocreSensorsRead, SensorDirectory.reading, hsensor, hview, Option.elim_some]
    change ite _ _ (ite _ _ _) = ite (calls.sampleFetch sensor.device < 0 ∨ _) _ _
    by_cases hfetch : calls.sampleFetch sensor.device < 0
    · simp [hfetch]
    · simp only [hfetch, false_or, if_false]
      rfl

/-- The search finds the first sensor of the list with the name, or answers an error. -/
theorem findSensorByName_eq (h : t.Sound) (name : Option CString) :
    (SensorDirectory.idOf t.visible name = none ∧ t.findSensorByName name < 0) ∨
      ∃ i < t.sensorCount, SensorDirectory.idOf t.visible name = some i ∧
        t.findSensorByName name = i := by
  cases name with
  | none => exact .inl ⟨rfl, (by decide : (-22 : Int) < 0)⟩
  | some name =>
      have hfind : ((t.sensors.take t.sensorCount).findIdx? fun sensor ↦
          sensor.inUse ∧ sensor.name = name) =
            t.visible.findIdx? fun sensor ↦ sensor.name = name := by
        calc
          _ = ((t.sensors.take t.sensorCount).map fun sensor ↦
              (sensor.inUse, sensor.name)).findIdx? fun x ↦ x.1 = true ∧ x.2 = name := by
            rw [List.findIdx?_map]
            rfl
          _ = _ := by
            rw [map_names h, List.findIdx?_map]
            simp [Function.comp_def]
      simp only [findSensorByName, SensorDirectory.idOf, Option.bind_some, hfind]
      cases hid : t.visible.findIdx? fun sensor ↦ sensor.name = name with
      | none => exact .inl ⟨rfl, by decide⟩
      | some i =>
          obtain ⟨hlt, -⟩ := List.findIdx?_eq_some_iff_getElem.mp hid
          exact .inr ⟨i, t.length_visible ▸ hlt, rfl, rfl⟩

theorem byName_eq {α : Type} {k : Int → α} {k' : ℕ → α} {notFound : α} (h : t.Sound)
    (hk : ∀ i < t.sensorCount, k i = k' i) (name : Option CString) :
    t.byName notFound k name = (SensorDirectory.idOf t.visible name).elim notFound k' := by
  rw [byName]
  rcases findSensorByName_eq h name with ⟨hnone, hneg⟩ | ⟨i, hi, hid, hfind⟩
  · rw [if_pos hneg, hnone, Option.elim_none]
  · rw [hfind, if_neg (by omega), hid, Option.elim_some, hk i hi]

/-- The functions by name that read the array without a check find a sensor there. -/
theorem elementByName_eq (h : t.Sound) {field : OcreSensorInternal cfg → Int} {f : ℕ → Int}
    (hfield : ∀ i sensor, i < t.sensorCount → sensor.Listed i →
      t.visible[i]? = some sensor.view → field sensor = f i) (name : Option CString) :
    (t.byName (some (-2)) (fun id ↦ (elementAt t.sensors id).map field) name).map SensorAnswer.int =
      some (.int ((SensorDirectory.idOf t.visible name).elim (-2) f)) := by
  have hk : ∀ i < t.sensorCount, (elementAt t.sensors i).map field = some (f i) := by
    intro i hi
    obtain ⟨sensor, -, hsensor, hlisted, hview⟩ := exists_sensorAt h hi
    have helement : elementAt t.sensors i = some sensor := hsensor
    rw [helement, Option.map_some, hfield i sensor hi hlisted hview]
  rw [byName_eq h hk]
  cases SensorDirectory.idOf t.visible name <;> rfl

/-- A table in which no slot that counts is broken answers as the list of what can be seen. -/
theorem answer_eq (h : t.Sound) (calls : DeviceCalls) {q : SensorQuery} (hq : q.Fits) :
    t.answer calls q = some (SensorDirectory.answer t.visible calls q) := by
  cases q with
  | ocreSensorsOpen id => rw [answer, ocreSensorsOpen_eq h, SensorDirectory.answer]
  | ocreSensorsGetHandle id =>
      rcases sensorAt_cases h id with
        ⟨hnone, hnone'⟩ | ⟨i, sensor, rfl, -, hsensor, -, hlisted, hview⟩
      · simp [answer, SensorDirectory.answer, ocreSensorsGetHandle, hnone, hnone']
      · simp [answer, SensorDirectory.answer, ocreSensorsGetHandle, hsensor, hview, hlisted.handle]
  | ocreSensorsGetName id buffer bufferSize => exact congrArg some (ocreSensorsGetName_eq h id hq)
  | ocreSensorsGetChannelCount id =>
      rcases sensorAt_cases h id with
        ⟨hnone, hnone'⟩ | ⟨i, sensor, rfl, -, hsensor, -, hlisted, hview⟩
      · simp [answer, SensorDirectory.answer, ocreSensorsGetChannelCount, hnone, hnone']
      · simp [answer, SensorDirectory.answer, ocreSensorsGetChannelCount, hsensor, hview,
          hlisted.numChannels]
  | ocreSensorsGetChannelType id channelIndex =>
      rw [answer, ocreSensorsGetChannelType_eq h, SensorDirectory.answer]
  | ocreSensorsRead id channelType => rw [answer, ocreSensorsRead_eq h, SensorDirectory.answer]
  | ocreSensorsOpenByName name =>
      rw [answer, ocreSensorsOpenByName, byName_eq h fun i _ ↦ ocreSensorsOpen_eq h i]
      rfl
  | ocreSensorsGetHandleByName name =>
      apply elementByName_eq h
      exact fun i sensor _ hlisted _ ↦ hlisted.handle
  | ocreSensorsGetChannelCountByName name =>
      apply elementByName_eq h
      intro i sensor hi hlisted hview
      rw [SensorDirectory.sensor, if_neg (by omega), Int.toNat_natCast, hview, Option.elim_some,
        hlisted.numChannels]
  | ocreSensorsGetChannelTypeByName name channelIndex =>
      rw [answer, ocreSensorsGetChannelTypeByName,
        byName_eq h fun i _ ↦ ocreSensorsGetChannelType_eq h i channelIndex]
      rfl
  | ocreSensorsReadByName name channelType =>
      rw [answer, ocreSensorsReadByName,
        byName_eq h fun i _ ↦ ocreSensorsRead_eq h i channelType]
      rfl
  | ocreSensorsGetList nameList maxNames =>
      have hnames : LimitedScan.found
          (fun sensor : OcreSensorInternal cfg ↦ if sensor.inUse then some sensor.name else none)
          maxNames.toNat (t.sensors.take t.sensorCount) =
            (t.visible.map SensorView.name).take maxNames.toNat := by
        calc
          _ = (((t.sensors.take t.sensorCount).map fun sensor ↦
              (sensor.inUse, sensor.name)).filterMap fun x ↦
                if x.1 then some x.2 else none).take maxNames.toNat := by
            rw [LimitedScan.found, List.filterMap_map]
            rfl
          _ = _ := by
            rw [map_names h, List.filterMap_map]
            simp
      rw [answer, SensorDirectory.answer, ocreSensorsGetList, hnames]
      split <;> rfl

end SensorTable

section Run

/-- What a run has left of the sensors. -/
theorem sound_of_run (cfg : SensorConfig) (calls : List SensorsCall) :
    (calls.foldl SensorTable.perform (.zero cfg)).Sound ∧
      (calls.foldl SensorTable.perform (.zero cfg)).visible =
        calls.foldl (SensorDirectory.perform cfg) [] := by
  have hzero : (SensorTable.zero cfg).Sound ∧ (SensorTable.zero cfg).visible = [] :=
    ⟨fun _ _ h ↦ absurd h (Nat.not_lt_zero _), by simp [SensorTable.visible, SensorTable.zero]⟩
  induction calls using List.reverseRecOn with
  | nil => exact hzero
  | append_singleton calls call ih =>
      rw [List.foldl_concat, List.foldl_concat]
      cases call with
      | init => exact hzero
      | discover devices => exact SensorTable.ocreSensorsDiscover_spec devices _

/-- After any run of `ocre_sensors_init` and `ocre_sensors_discover`, every query answers as the
list of the sensors that the last of these calls has left. -/
theorem answers_of_run (calls : List SensorsCall) (devices : DeviceCalls) {q : SensorQuery}
    (hq : q.Fits) :
    (calls.foldl SensorTable.perform (.zero cfg)).answer devices q =
      some ((calls.foldl (SensorDirectory.perform cfg) []).answer devices q) := by
  obtain ⟨hsound, hvisible⟩ := sound_of_run cfg calls
  rw [SensorTable.answer_eq hsound devices hq, hvisible]

/-- Room for two sensors, of which `temp` and `rng` are in the device tree. -/
def smallSensorConfig : SensorConfig where
  maxSensors := 2
  maxChannelsPerSensor := 2
  chanAll := 4
  chanAccelXyz := 0
  chanGyroXyz := 10
  chanMagnXyz := 11
  chanPosDxyz := 12
  sensorDiscoveryNames := [cstring "temp", cstring "rng"]

/-- A device that is not listed, and one with the channels 1 and 3. -/
def smallDevices : List SensorDevice :=
  [⟨some (cstring "uart"), some true, true, fun _ ↦ 0, by decide⟩,
    ⟨some (cstring "rng"), some true, true, fun channel ↦ if channel = 2 then -5 else 0, by decide⟩]

/-- The name of the first sensor, in a buffer of 8 bytes of which 6 may be used. -/
theorem answers_of_run_rng :
    ([.discover none, .init, .discover (some smallDevices)].foldl SensorTable.perform
      (.zero smallSensorConfig)).answer ⟨fun _ ↦ true, fun _ ↦ 0, fun _ _ ↦ (0, ⟨21, 0⟩)⟩
        (.ocreSensorsGetName 0 (some [9, 9, 9, 9, 9, 9, 9, 9]) 6) =
      some (.name 3 (some (cstring "rng" ++ [0, 0, 0, 9, 9]))) := by
  have hfits : SensorQuery.Fits
      (.ocreSensorsGetName 0 (some [9, 9, 9, 9, 9, 9, 9, 9]) 6) := by
    rintro bytes ⟨⟩
    decide
  rw [answers_of_run _ _ hfits]
  decide

end Run

end OcreRuntime

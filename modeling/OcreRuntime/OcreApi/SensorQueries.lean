import OcreRuntime.OcreApi.Sensors

/-!
# What the sensor functions see

A sensor counts if its slot stands before `sensor_count`, and of such a slot a function sees
the device, the name and the channels. Two tables in which the same can be seen answer alike,
whatever their other slots and the rest of their arrays hold, and an ID or an index outside is
refused.
-/

namespace OcreRuntime

variable {cfg : SensorConfig}

/-- What can be seen of a sensor. -/
structure SensorView where
  device : Option ℕ
  name : CString
  channels : List ℕ
  deriving DecidableEq

namespace OcreSensorInternal

variable (sensor : OcreSensorInternal cfg)

def view : SensorView where
  device := sensor.device
  name := sensor.name
  channels := sensor.info.channels.take sensor.info.numChannels.toNat

/-- A slot that counts, at a position. -/
structure Listed (i : ℕ) (sensor : OcreSensorInternal cfg) : Prop where
  inUse : sensor.inUse = true
  handle : sensor.info.handle = i
  terminated : sensor.info.sensorName.getLast? = some 0
  numChannels : sensor.info.numChannels = sensor.view.channels.length

end OcreSensorInternal

namespace SensorTable

/-- The sensors that count. -/
def visible (t : SensorTable cfg) : List SensorView :=
  (t.sensors.take t.sensorCount).map OcreSensorInternal.view

theorem length_visible (t : SensorTable cfg) : t.visible.length = t.sensorCount := by
  rw [visible, List.length_map, List.length_take, t.length_sensors,
    Nat.min_eq_left t.sensorCount_le]

def Sound (t : SensorTable cfg) : Prop :=
  ∀ i sensor, i < t.sensorCount → t.sensors[i]? = some sensor → sensor.Listed i

variable {t t' : SensorTable cfg} {calls : DeviceCalls} {id : Int}

theorem sensorAt_eq_none (h : id < 0 ∨ id ≥ t.sensorCount) : t.sensorAt id = none := dif_pos h

/-- A valid ID is the position of a sensor that counts. -/
theorem exists_sensorAt (h : t.Sound) {i : ℕ} (hi : i < t.sensorCount) :
    ∃ sensor, t.sensorAt i = some sensor ∧ t.sensors[i]? = some sensor ∧ sensor.Listed i ∧
      t.visible[i]? = some sensor.view := by
  have hlt : i < t.sensors.length := t.length_sensors ▸ hi.trans_le t.sensorCount_le
  have hsensor := List.getElem?_eq_getElem hlt
  have hlisted := h i _ hi hsensor
  refine ⟨t.sensors[i], ?_, hsensor, hlisted, ?_⟩
  · simp [sensorAt, hi, hlisted.inUse]
  · rw [visible, List.getElem?_map, List.getElem?_take_of_lt hi, hsensor, Option.map_some]

/-- The answers about two sensors are the same. -/
structure Alike (sensor sensor' : OcreSensorInternal cfg) : Prop where
  view : sensor.view = sensor'.view
  handle : sensor.info.handle = sensor'.info.handle
  numChannels : sensor.info.numChannels = sensor'.info.numChannels

theorem alike_of_listed {i : ℕ} {sensor sensor' : OcreSensorInternal cfg} (h : sensor.Listed i)
    (h' : sensor'.Listed i) (hview : sensor.view = sensor'.view) : Alike sensor sensor' :=
  ⟨hview, h.handle.trans h'.handle.symm, by rw [h.numChannels, h'.numChannels, hview]⟩

theorem Alike.device {sensor sensor' : OcreSensorInternal cfg} (h : Alike sensor sensor') :
    sensor.device = sensor'.device := congrArg SensorView.device h.view

theorem Alike.name {sensor sensor' : OcreSensorInternal cfg} (h : Alike sensor sensor') :
    sensor.name = sensor'.name := congrArg SensorView.name h.view

theorem Alike.channels {sensor sensor' : OcreSensorInternal cfg} (h : Alike sensor sensor') {k : ℕ}
    (hk : k < sensor.info.numChannels) : sensor.info.channels[k]? = sensor'.info.channels[k]? := by
  have hchannels := congrArg SensorView.channels h.view
  change sensor.info.channels.take _ = sensor'.info.channels.take _ at hchannels
  rw [← h.numChannels] at hchannels
  have hlt : k < sensor.info.numChannels.toNat := by omega
  rw [← List.getElem?_take_of_lt hlt, hchannels, List.getElem?_take_of_lt hlt]

/-- The sensors at one position of two tables in which the same can be seen. -/
theorem exists_alike (h : t.Sound) (h' : t'.Sound) (heq : t.visible = t'.visible) {i : ℕ}
    (hi : i < t.sensorCount) : ∃ sensor sensor', Alike sensor sensor' ∧
      t.sensorAt i = some sensor ∧ t'.sensorAt i = some sensor' ∧
      elementAt t.sensors i = some sensor ∧ elementAt t'.sensors i = some sensor' := by
  have hcount : t.sensorCount = t'.sensorCount := by
    rw [← length_visible, heq, length_visible]
  obtain ⟨sensor, hsensor, helement, hlisted, hview⟩ := exists_sensorAt h hi
  obtain ⟨sensor', hsensor', helement', hlisted', hview'⟩ := exists_sensorAt h' (hcount ▸ hi)
  rw [heq] at hview
  exact ⟨sensor, sensor', alike_of_listed hlisted hlisted'
    (Option.some.inj (hview.symm.trans hview')), hsensor, hsensor', helement, helement'⟩

theorem sensorAt_alike (h : t.Sound) (h' : t'.Sound) (heq : t.visible = t'.visible) (id : Int) :
    (t.sensorAt id = none ∧ t'.sensorAt id = none) ∨
      ∃ sensor sensor', t.sensorAt id = some sensor ∧ t'.sensorAt id = some sensor' ∧
        Alike sensor sensor' := by
  by_cases hid : id < 0 ∨ id ≥ t.sensorCount
  · have hcount : t.sensorCount = t'.sensorCount := by
      rw [← length_visible, heq, length_visible]
    exact .inl ⟨sensorAt_eq_none hid, sensorAt_eq_none (hcount ▸ hid)⟩
  · obtain ⟨i, rfl⟩ := Int.eq_ofNat_of_zero_le (by omega : 0 ≤ id)
    obtain ⟨sensor, sensor', halike, hsensor, hsensor', -⟩ :=
      exists_alike h h' heq (by omega : i < t.sensorCount)
    exact .inr ⟨sensor, sensor', hsensor, hsensor', halike⟩

theorem ocreSensorsOpen_congr (h : t.Sound) (h' : t'.Sound) (heq : t.visible = t'.visible)
    (id : Int) : t.ocreSensorsOpen calls id = t'.ocreSensorsOpen calls id := by
  rcases sensorAt_alike h h' heq id with
    ⟨hnone, hnone'⟩ | ⟨sensor, sensor', hsensor, hsensor', halike⟩
  · simp [ocreSensorsOpen, hnone, hnone']
  · simp [ocreSensorsOpen, hsensor, hsensor', halike.device]

theorem ocreSensorsGetName_congr (h : t.Sound) (h' : t'.Sound) (heq : t.visible = t'.visible)
    (id : Int) (buffer : Option (List UInt8)) (bufferSize : Int) :
    t.ocreSensorsGetName id buffer bufferSize = t'.ocreSensorsGetName id buffer bufferSize := by
  rcases sensorAt_alike h h' heq id with
    ⟨hnone, hnone'⟩ | ⟨sensor, sensor', hsensor, hsensor', halike⟩
  · simp [ocreSensorsGetName, hnone, hnone']
  · cases buffer <;> simp [ocreSensorsGetName, hsensor, hsensor', halike.name]

theorem ocreSensorsGetChannelType_congr (h : t.Sound) (h' : t'.Sound)
    (heq : t.visible = t'.visible) (id channelIndex : Int) :
    t.ocreSensorsGetChannelType id channelIndex =
      t'.ocreSensorsGetChannelType id channelIndex := by
  rcases sensorAt_alike h h' heq id with
    ⟨hnone, hnone'⟩ | ⟨sensor, sensor', hsensor, hsensor', halike⟩
  · simp [ocreSensorsGetChannelType, hnone, hnone']
  · rw [ocreSensorsGetChannelType, ocreSensorsGetChannelType, hsensor, hsensor']
    dsimp only
    by_cases hindex : channelIndex < 0 ∨ channelIndex ≥ sensor.info.numChannels
    · rw [dif_pos hindex, dif_pos (halike.numChannels ▸ hindex)]
    · rw [dif_neg hindex, dif_neg (halike.numChannels ▸ hindex)]
      have hlt : (channelIndex.toNat : Int) < sensor.info.numChannels := by omega
      have hchannel := halike.channels hlt
      rw [List.getElem?_eq_getElem (sensor.info.lt_length_channels hlt),
        List.getElem?_eq_getElem
          (sensor'.info.lt_length_channels (halike.numChannels ▸ hlt))] at hchannel
      exact congrArg Nat.cast (Option.some.inj hchannel)

theorem ocreSensorsRead_congr (h : t.Sound) (h' : t'.Sound) (heq : t.visible = t'.visible)
    (id channelType : Int) :
    t.ocreSensorsRead calls id channelType = t'.ocreSensorsRead calls id channelType := by
  rcases sensorAt_alike h h' heq id with
    ⟨hnone, hnone'⟩ | ⟨sensor, sensor', hsensor, hsensor', halike⟩
  · simp [ocreSensorsRead, hnone, hnone']
  · simp [ocreSensorsRead, hsensor, hsensor', halike.device]

/-- The slots that count are in use, and only their names are searched. -/
theorem map_names (h : t.Sound) :
    (t.sensors.take t.sensorCount).map (fun sensor ↦ (sensor.inUse, sensor.name)) =
      t.visible.map fun view ↦ (true, view.name) := by
  rw [visible, List.map_map]
  apply List.map_congr_left
  intro sensor hsensor
  obtain ⟨i, hi⟩ := List.mem_iff_getElem?.mp hsensor
  rw [List.getElem?_take] at hi
  obtain ⟨hlt, hget⟩ := Option.ite_none_right_eq_some.mp hi
  simp [(h i sensor hlt hget).inUse, OcreSensorInternal.view]

theorem findSensorByName_congr (h : t.Sound) (h' : t'.Sound) (heq : t.visible = t'.visible)
    (name : Option CString) : t.findSensorByName name = t'.findSensorByName name := by
  cases name with
  | none => rfl
  | some name =>
      have hfind {u : SensorTable cfg} (hu : u.Sound) :
          ((u.sensors.take u.sensorCount).findIdx? fun sensor ↦
            sensor.inUse ∧ sensor.name = name) =
              (u.visible.map fun view ↦ (true, view.name)).findIdx? fun x ↦
                decide (x.1 = true ∧ x.2 = name) := by
        rw [← map_names hu, List.findIdx?_map]
        rfl
      simp only [findSensorByName, hfind h, hfind h', heq]

/-- A name that is found leads to a sensor that counts. -/
theorem findSensorByName_lt (t : SensorTable cfg) (name : Option CString) :
    t.findSensorByName name < 0 ∨ ∃ i < t.sensorCount, t.findSensorByName name = i := by
  cases name with
  | none => exact .inl (by decide : (-22 : Int) < 0)
  | some name =>
      simp only [findSensorByName]
      split
      next i hi =>
        obtain ⟨hlt, -⟩ := List.findIdx?_eq_some_iff_getElem.mp hi
        rw [List.length_take] at hlt
        exact .inr ⟨i, by omega, rfl⟩
      next => exact .inl (by decide)

/-- A function by name answers alike when the function that it goes on to does for the sensors
that count. -/
theorem byName_congr {α : Type} {k k' : Int → α} (h : t.Sound) (h' : t'.Sound)
    (heq : t.visible = t'.visible) (hk : ∀ i < t.sensorCount, k i = k' i) (notFound : α)
    (name : Option CString) : t.byName notFound k name = t'.byName notFound k' name := by
  rw [byName, byName, ← findSensorByName_congr h h' heq]
  rcases findSensorByName_lt t name with hneg | ⟨i, hi, hfind⟩
  · simp [hneg]
  · simp [hfind, hk i hi]

theorem ocreSensorsGetList_congr (h : t.Sound) (h' : t'.Sound) (heq : t.visible = t'.visible)
    (nameList : Bool) (maxNames : Int) :
    t.ocreSensorsGetList nameList maxNames = t'.ocreSensorsGetList nameList maxNames := by
  have hnames {u : SensorTable cfg} (hu : u.Sound) :
      LimitedScan.found
        (fun sensor : OcreSensorInternal cfg ↦ if sensor.inUse then some sensor.name else none)
        maxNames.toNat (u.sensors.take u.sensorCount) =
          LimitedScan.found (fun x : Bool × CString ↦ if x.1 then some x.2 else none)
            maxNames.toNat (u.visible.map fun view ↦ (true, view.name)) := by
    rw [← map_names hu, LimitedScan.found, LimitedScan.found, List.filterMap_map]
    rfl
  simp only [ocreSensorsGetList, hnames h, hnames h', heq]

/-- No query sees more of a table than the sensors that count. -/
theorem answer_congr (h : t.Sound) (h' : t'.Sound) (heq : t.visible = t'.visible)
    (calls : DeviceCalls) (q : SensorQuery) : t.answer calls q = t'.answer calls q := by
  cases q with
  | ocreSensorsOpen handle => simp only [answer, ocreSensorsOpen_congr h h' heq]
  | ocreSensorsGetHandle id =>
      rcases sensorAt_alike h h' heq id with
        ⟨hnone, hnone'⟩ | ⟨sensor, sensor', hsensor, hsensor', halike⟩
      · simp [answer, ocreSensorsGetHandle, hnone, hnone']
      · simp [answer, ocreSensorsGetHandle, hsensor, hsensor', halike.handle]
  | ocreSensorsGetName id buffer bufferSize =>
      simp only [answer, ocreSensorsGetName_congr h h' heq]
  | ocreSensorsGetChannelCount id =>
      rcases sensorAt_alike h h' heq id with
        ⟨hnone, hnone'⟩ | ⟨sensor, sensor', hsensor, hsensor', halike⟩
      · simp [answer, ocreSensorsGetChannelCount, hnone, hnone']
      · simp [answer, ocreSensorsGetChannelCount, hsensor, hsensor', halike.numChannels]
  | ocreSensorsGetChannelType id channelIndex =>
      simp only [answer, ocreSensorsGetChannelType_congr h h' heq]
  | ocreSensorsRead id channelType => simp only [answer, ocreSensorsRead_congr h h' heq]
  | ocreSensorsOpenByName name =>
      simp only [answer, ocreSensorsOpenByName]
      rw [byName_congr h h' heq]
      exact fun i _ ↦ ocreSensorsOpen_congr h h' heq i
  | ocreSensorsGetHandleByName name =>
      simp only [answer, ocreSensorsGetHandleByName]
      rw [byName_congr h h' heq]
      intro i hi
      obtain ⟨sensor, sensor', halike, -, -, hsensor, hsensor'⟩ := exists_alike h h' heq hi
      simp [hsensor, hsensor', halike.handle]
  | ocreSensorsGetChannelCountByName name =>
      simp only [answer, ocreSensorsGetChannelCountByName]
      rw [byName_congr h h' heq]
      intro i hi
      obtain ⟨sensor, sensor', halike, -, -, hsensor, hsensor'⟩ := exists_alike h h' heq hi
      simp [hsensor, hsensor', halike.numChannels]
  | ocreSensorsGetChannelTypeByName name channelIndex =>
      simp only [answer, ocreSensorsGetChannelTypeByName]
      rw [byName_congr h h' heq]
      exact fun i _ ↦ ocreSensorsGetChannelType_congr h h' heq i channelIndex
  | ocreSensorsReadByName name channelType =>
      simp only [answer, ocreSensorsReadByName]
      rw [byName_congr h h' heq]
      exact fun i _ ↦ ocreSensorsRead_congr h h' heq i channelType
  | ocreSensorsGetList nameList maxNames =>
      simp only [answer, ocreSensorsGetList_congr h h' heq]

/-- By a valid table no array is read outside. -/
theorem isSome_answer (h : t.Sound) (calls : DeviceCalls) (q : SensorQuery) :
    (t.answer calls q).isSome := by
  have helement {name : Option CString} {field : OcreSensorInternal cfg → Int} :
      (t.byName (some (-2)) (fun id ↦ (elementAt t.sensors id).map field) name).isSome := by
    rw [byName]
    rcases findSensorByName_lt t name with hneg | ⟨i, hi, hfind⟩
    · simp [hneg]
    · obtain ⟨sensor, -, -, -, -, hsensor, -⟩ := exists_alike h h rfl hi
      have hnonneg : ¬ (i : Int) < 0 := by omega
      simp [hfind, hsensor, hnonneg]
  cases q with
  | ocreSensorsGetHandleByName name =>
      simpa [answer, ocreSensorsGetHandleByName] using helement
  | ocreSensorsGetChannelCountByName name =>
      simpa [answer, ocreSensorsGetChannelCountByName] using helement
  | _ => rfl

theorem isError_answer (t : SensorTable cfg) (calls : DeviceCalls) {q : SensorQuery} {id : Int}
    (hq : q.id = some id) (hid : id < 0 ∨ id ≥ t.sensorCount) :
    ∃ a, t.answer calls q = some a ∧ a.IsError := by
  have hnone := sensorAt_eq_none hid
  cases q with
  | ocreSensorsOpen handle =>
      obtain rfl := Option.some.inj hq
      exact ⟨_, rfl, by simp [SensorAnswer.IsError, ocreSensorsOpen, hnone]⟩
  | ocreSensorsGetHandle id' =>
      obtain rfl := Option.some.inj hq
      exact ⟨_, rfl, by simp [SensorAnswer.IsError, ocreSensorsGetHandle, hnone]⟩
  | ocreSensorsGetName id' buffer bufferSize =>
      obtain rfl := Option.some.inj hq
      exact ⟨_, rfl, by simp [SensorAnswer.IsError, ocreSensorsGetName, hnone]⟩
  | ocreSensorsGetChannelCount id' =>
      obtain rfl := Option.some.inj hq
      exact ⟨_, rfl, by simp [SensorAnswer.IsError, ocreSensorsGetChannelCount, hnone]⟩
  | ocreSensorsGetChannelType id' channelIndex =>
      obtain rfl := Option.some.inj hq
      exact ⟨_, rfl, by simp [SensorAnswer.IsError, ocreSensorsGetChannelType, hnone]⟩
  | ocreSensorsRead id' channelType =>
      obtain rfl := Option.some.inj hq
      exact ⟨_, rfl, by simp [SensorAnswer.IsError, ocreSensorsRead, hnone]⟩
  | _ => cases hq

theorem ocreSensorsGetChannelType_of_outside (t : SensorTable cfg) {id channelIndex : Int}
    (h : ∀ sensor, t.sensorAt id = some sensor →
      channelIndex < 0 ∨ channelIndex ≥ sensor.info.numChannels) :
    t.ocreSensorsGetChannelType id channelIndex = -22 := by
  rw [ocreSensorsGetChannelType]
  cases hsensor : t.sensorAt id with
  | none => rfl
  | some sensor => exact dif_pos (h sensor hsensor)

end SensorTable

end OcreRuntime

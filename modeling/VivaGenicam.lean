import VivaGenicam.Camera.Chunks
import VivaGenicam.Camera.EventUndone
import VivaGenicam.Camera.Events
import VivaGenicam.Camera.PacketProbe
import VivaGenicam.Camera.Roi
import VivaGenicam.Genapi.CallEffects
import VivaGenicam.Genapi.ConverterLimits
import VivaGenicam.Genapi.FloatReadBack
import VivaGenicam.Genapi.FormulaBindings
import VivaGenicam.Genapi.FormulaPrint
import VivaGenicam.Genapi.MaskedWrites
import VivaGenicam.GenapiXml.Addressing
import VivaGenicam.GenapiXml.Inheritance
import VivaGenicam.Gentl.Spans
import VivaGenicam.Gentl.Url
import VivaGenicam.Gige.Action
import VivaGenicam.Gige.Codec
import VivaGenicam.Gige.Commitment
import VivaGenicam.Gige.EventSocket
import VivaGenicam.Gige.HostTime
import VivaGenicam.Gige.Matching
import VivaGenicam.Gige.RegisterDevice
import VivaGenicam.Service.DeviceIds
import VivaGenicam.Service.MetadataBounds
import VivaGenicam.Service.Viewer
import VivaGenicam.Stream.Departures
import VivaGenicam.Stream.Fates
import VivaGenicam.Stream.GapRuns
import VivaGenicam.Stream.HandOver
import VivaGenicam.Stream.PacketSet
import VivaGenicam.Stream.Reassembly
import VivaGenicam.Studio.FeatureRuns
import VivaGenicam.Studio.FramePacer
import VivaGenicam.Studio.Measurements
import VivaGenicam.U3v.Conservation
import VivaGenicam.U3v.ControlAccess
import VivaGenicam.U3v.Layout
import VivaGenicam.U3v.Reader

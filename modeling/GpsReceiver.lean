import GpsReceiver.Acquisition.Hw1
import GpsReceiver.Acquisition.ReplicaTiming
import GpsReceiver.Acquisition.RunCaCode
import GpsReceiver.Acquisition.Search
import GpsReceiver.CaCode.Cacodegen
import GpsReceiver.CaCode.Gold
import GpsReceiver.CaCode.SatelliteCodes
import GpsReceiver.Correlator.Circular
import GpsReceiver.Correlator.DirectLaws
import GpsReceiver.Firmware.GpsNios
import GpsReceiver.Firmware.JtagUartCalls
import GpsReceiver.Firmware.JtagUartRoutine
import GpsReceiver.Interconnect.Progress
import GpsReceiver.Iono.DualFrequency
import GpsReceiver.Iono.Klobuchar
import GpsReceiver.Lib.PackedBits
import GpsReceiver.Orbit.KeplerScalar
import GpsReceiver.Orbit.KeplerVector
import GpsReceiver.Orbit.Loaddata
import GpsReceiver.Orbit.SatPosition
import GpsReceiver.Positioning.Convergence
import GpsReceiver.Positioning.Correction
import GpsReceiver.Positioning.Geometry
import GpsReceiver.Rms.Scheduler

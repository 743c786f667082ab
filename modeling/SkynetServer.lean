import SkynetServer.Agent.OpenClose
import SkynetServer.Agent.Record
import SkynetServer.Base.Hash
import SkynetServer.Base.Uuid
import SkynetServer.Cjson.Plain
import SkynetServer.Common.Helper
import SkynetServer.Database.PayInfo
import SkynetServer.Database.ResultInfo
import SkynetServer.Database.Sharding
import SkynetServer.Game.ClearPool
import SkynetServer.Game.NoneLost
import SkynetServer.Game.PendingMsg
import SkynetServer.Login.Sessions
import SkynetServer.Mail.Handler
import SkynetServer.Mail.Server
import SkynetServer.Map.Update
import SkynetServer.Preload.Luaext
import SkynetServer.Proto.Packet
import SkynetServer.ServicePackage.ByteQueue
import SkynetServer.ServicePackage.Service
import SkynetServer.Skiplist.Zset
import SkynetServer.Srp.KeyAgreement
import SkynetServer.Timer.NewDay
import SkynetServer.Web.CreatAccount
import SkynetServer.Websocket.Announced
import SkynetServer.Websocket.Close
import SkynetServer.Websocket.Fifo
import SkynetServer.Websocket.Handshake
import SkynetServer.Websocket.Header
import SkynetServer.Websocket.Oversized
import SkynetServer.Websocket.Records
import SkynetServer.Websocket.Recv
import SkynetServer.Websocket.Strnpos
